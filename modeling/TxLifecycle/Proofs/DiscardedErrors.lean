import TxLifecycle.Proofs.Sites

/-!
# Commits whose error is thrown away

A commit is marked when its error goes to the blank identifier. While an assignment `_ = e` is read,
a flag says so. It is put aside for the arguments of calls, and every assignment that is read
meanwhile switches it off for good. The bodies of function literals are no exception: the flag
stays on when the body is entered.

* `Action.discard`, `Walk.discard_of_run`: the flag as a machine that runs on actions alone;
* `InBlank`, `InArguments`: positions in an assignment to the blank identifier, and in the arguments
  of a call;
* `Discarded`: positions in an assignment to the blank identifier, but in no arguments and after no
  other assignment in it. The flag is on at these (`FunctionUnit.discarding_iff_discarded`).

The main statement is `FunctionUnit.marked_iff_discarded`.
-/

namespace TxLifecycle

/-- What an action makes of the flag, and of those put aside for the calls around. -/
def Action.discard (flag : Bool × List Bool) : Action → Bool × List Bool
  | .beginAssign blank => (blank, flag.2)
  | .endAssign => (false, flag.2)
  | .openArgs => (false, flag.1 :: flag.2)
  | .closeArgs => (flag.2.headD false, flag.2.tail)
  | _ => flag

theorem Action.discard_eq {action : Action} (h : action.setsDiscard = false)
    (flag : Bool × List Bool) : Action.discard flag action = flag := by
  cases action <;> first | rfl | cases h

namespace Walk

variable {limits : Limits} {w u : Walk} {actions : List Action}

/-- The value being read is thrown away, and so were those of the calls around. -/
def discard (w : Walk) : Bool × List Bool :=
  (w.discarding, w.sheltered)

theorem discard_of_exec {action : Action} (h : w.exec limits action = .ok u) :
    u.discard = Action.discard w.discard action := by
  obtain ⟨pending, hregisters⟩ := exists_pending h
  refine (congrArg (fun r : Registers => (r.discarding, r.sheltered)) hregisters).trans ?_
  cases action with
  | holdGuards take => cases take <;> rfl
  | _ => rfl

/-- The flag can be told from the actions alone. -/
theorem discard_of_run (h : w.run limits actions = .ok u) :
    u.discard = actions.foldl Action.discard w.discard := by
  induction actions generalizing w with
  | nil =>
    cases h
    rfl
  | cons action rest ih =>
    obtain ⟨v, hexec, hrest⟩ := run_cons_eq_ok.mp h
    rw [ih hrest, discard_of_exec hexec, List.foldl_cons]

end Walk

/-! ## Where the flag is on -/

/-- Of some actions those before a position have been read. Some expressions are being read, between
an action that opens something and one that closes it, and `lead` has been read of them. -/
def Halfway (names : Recognizers) (opening closing : Action) (actions before lead : List Action) :
    Prop :=
  ∃ first list rest last, exprsActions names list = lead ++ rest ∧
    before = first ++ opening :: lead ∧ actions = before ++ (rest ++ closing :: last)

/-- The right side of an assignment is being read whose only target is the blank identifier. -/
def InBlank (names : Recognizers) (actions before : List Action) : Prop :=
  ∃ lead, Halfway names (.beginAssign true) .endAssign actions before lead

/-- The arguments of a call are being read. -/
def InArguments (names : Recognizers) (actions before : List Action) : Prop :=
  ∃ lead, Halfway names .openArgs .closeArgs actions before lead

/-- Outside of whole argument lists no assignment begins or ends. -/
inductive Unassigned (names : Recognizers) : List Action → Prop where
  | nil : Unassigned names []
  | cons {action : Action} {rest : List Action} : action.setsDiscard = false →
      Unassigned names rest → Unassigned names (action :: rest)
  | args (list : List Expr) {rest : List Action} : Unassigned names rest →
      Unassigned names (.openArgs :: exprsActions names list ++ .closeArgs :: rest)

/-- The right side of an assignment to the blank identifier is being read, outside of arguments and
with no other assignment before. -/
def Discarded (names : Recognizers) (actions before : List Action) : Prop :=
  ∃ lead, Halfway names (.beginAssign true) .endAssign actions before lead ∧ Unassigned names lead

variable {names : Recognizers} {actions actions' before : List Action}

namespace Halfway

variable {opening closing : Action} {lead : List Action}
  (h : Halfway names opening closing actions before lead)
include h

theorem append (more : List Action) :
    Halfway names opening closing (actions ++ more) before lead := by
  obtain ⟨first, list, rest, last, hlist, hbefore, hactions⟩ := h
  exact ⟨first, list, rest, last ++ more, hlist, hbefore, by simp [hactions]⟩

theorem prepend (more : List Action) :
    Halfway names opening closing (more ++ actions) (more ++ before) lead := by
  obtain ⟨first, list, rest, last, hlist, hbefore, hactions⟩ := h
  exact ⟨more ++ first, list, rest, last, hlist, by simp [hbefore], by simp [hactions]⟩

theorem mem : opening ∈ actions := by
  obtain ⟨first, list, rest, last, -, rfl, rfl⟩ := h
  simp

end Halfway

namespace Discarded

theorem append (h : Discarded names actions before) (more : List Action) :
    Discarded names (actions ++ more) before := by
  obtain ⟨lead, hhalfway, hlead⟩ := h
  exact ⟨lead, hhalfway.append more, hlead⟩

theorem prepend (h : Discarded names actions before) (more : List Action) :
    Discarded names (more ++ actions) (more ++ before) := by
  obtain ⟨lead, hhalfway, hlead⟩ := h
  exact ⟨lead, hhalfway.prepend more, hlead⟩

end Discarded

theorem Unassigned.append (h : Unassigned names actions) (h' : Unassigned names actions') :
    Unassigned names (actions ++ actions') := by
  induction h with
  | nil => exact h'
  | cons haction _ ih => exact .cons haction ih
  | args list _ ih => simpa using Unassigned.args list ih

/-- Reading the actions leaves the flag as it was, or switches it off. On the way it is on only if
it was before and nothing has switched it off, or if an assignment to the blank identifier has
begun. -/
structure Discards (names : Recognizers) (actions : List Action) : Prop where
  after : ∀ flag saved, ∃ flag', actions.foldl Action.discard (flag, saved) = (flag', saved) ∧
    (flag' = true → flag = true ∧ Unassigned names actions)
  within : ∀ {flag : Bool} {saved : List Bool} {before rest : List Action},
    actions = before ++ rest → (before.foldl Action.discard (flag, saved)).1 = true →
    (flag = true ∧ Unassigned names before) ∨ Discarded names actions before

namespace Discards

theorem nil : Discards names [] := by
  refine ⟨fun flag _ => ⟨flag, rfl, fun h => ⟨h, .nil⟩⟩, fun hsplit h => Or.inl ?_⟩
  obtain ⟨rfl, -⟩ := List.append_eq_nil_iff.mp hsplit.symm
  exact ⟨h, .nil⟩

theorem append (h : Discards names actions) (h' : Discards names actions') :
    Discards names (actions ++ actions') := by
  refine ⟨fun flag saved => ?_, fun {flag saved before rest} hsplit hflag => ?_⟩
  · obtain ⟨flag₁, hfirst, himp⟩ := h.after flag saved
    obtain ⟨flag₂, hsecond, himp'⟩ := h'.after flag₁ saved
    refine ⟨flag₂, by rw [List.foldl_append, hfirst, hsecond], fun hflag => ?_⟩
    obtain ⟨hflag₁, hrest⟩ := himp' hflag
    obtain ⟨hflag, hstart⟩ := himp hflag₁
    exact ⟨hflag, hstart.append hrest⟩
  · rcases List.append_eq_append_iff.mp hsplit with ⟨lead, rfl, hlead⟩ | ⟨tail, hactions, -⟩
    · -- the position is in the second part, and the flag may have come through the first
      obtain ⟨flag₁, hfirst, himp⟩ := h.after flag saved
      rw [List.foldl_append, hfirst] at hflag
      rcases h'.within hlead hflag with ⟨hflag₁, hread⟩ | hdiscarded
      · obtain ⟨hflag, hstart⟩ := himp hflag₁
        exact Or.inl ⟨hflag, hstart.append hread⟩
      · exact Or.inr (hdiscarded.prepend actions)
    · exact (h.within hactions hflag).imp_right fun hdiscarded => hdiscarded.append actions'

theorem single {action : Action} (haction : action.setsDiscard = false) :
    Discards names [action] := by
  have hsame := Action.discard_eq haction
  refine ⟨fun flag saved => ⟨flag, hsame _, fun h => ⟨h, .cons haction .nil⟩⟩, ?_⟩
  intro flag saved before rest hsplit hflag
  cases before with
  | nil => exact Or.inl ⟨hflag, .nil⟩
  | cons first before =>
    obtain ⟨rfl, htail⟩ := List.cons_eq_cons.mp hsplit
    obtain ⟨rfl, -⟩ := List.append_eq_nil_iff.mp htail.symm
    rw [List.foldl_cons, hsame] at hflag
    exact Or.inl ⟨hflag, .cons haction .nil⟩

theorem of_forall (h : ∀ action ∈ actions, action.setsDiscard = false) :
    Discards names actions := by
  induction actions with
  | nil => exact .nil
  | cons action rest ih =>
    exact (single (h action List.mem_cons_self)).append
      (ih fun a ha => h a (List.mem_cons_of_mem _ ha))

/-- A bracket around actions, such as that of an argument list, with what it does to the flag. -/
theorem bracket {first last : Action} (h : Discards names actions)
    (hafter : ∀ flag saved flag', ∃ flag'', Action.discard
      (flag', (Action.discard (flag, saved) first).2) last = (flag'', saved) ∧
      (flag'' = true → flag = true ∧ Unassigned names (first :: actions ++ [last])))
    (hwithin : ∀ {flag : Bool} {saved : List Bool} {before rest : List Action},
      actions = before ++ rest → (Action.discard (flag, saved) first).1 = true →
      Unassigned names before → Discarded names (first :: actions ++ [last]) (first :: before)) :
    Discards names (first :: actions ++ [last]) := by
  have hend : ∀ flag saved, ∃ flag', (first :: actions ++ [last]).foldl Action.discard
      (flag, saved) = (flag', saved) ∧
      (flag' = true → flag = true ∧ Unassigned names (first :: actions ++ [last])) := by
    intro flag saved
    obtain ⟨flag', hactions, -⟩ := h.after (Action.discard (flag, saved) first).1
      (Action.discard (flag, saved) first).2
    obtain ⟨flag'', hlast, himp⟩ := hafter flag saved flag'
    refine ⟨flag'', ?_, himp⟩
    rw [List.foldl_append]
    exact (congrArg (Action.discard · last) hactions).trans hlast
  refine ⟨hend, fun {flag saved before rest} hsplit hflag => ?_⟩
  rcases List.eq_nil_or_concat rest with rfl | ⟨rest, final, rfl⟩
  · -- all has been read
    obtain ⟨flag', hactions, himp⟩ := hend flag saved
    rw [List.append_nil] at hsplit
    rw [← hsplit, hactions] at hflag
    exact Or.inl (hsplit ▸ himp hflag)
  · cases before with
    | nil => exact Or.inl ⟨hflag, .nil⟩
    | cons action before =>
      rw [List.concat_eq_append, ← List.append_assoc] at hsplit
      obtain ⟨rfl, htail⟩ := List.cons_eq_cons.mp (List.append_inj' hsplit rfl).1
      rcases h.within htail hflag with ⟨hfirst, hread⟩ | hdiscarded
      · exact Or.inr (hwithin htail hfirst hread)
      · exact Or.inr ((hdiscarded.append [last]).prepend [first])

end Discards

/-- The flag is on only within an assignment to the blank identifier. -/
theorem Composed.discards {F : Span → Expr → Prop} {place last : Span} {parts : List Part}
    {lists : List (List Stmt)} (h : Composed names F place parts lists actions last) :
    Discards names actions := by
  have hown : ∀ {part : Part} {actions : List Action},
      actions.Sublist (part.handling names) → Discards names actions := by
    refine fun hsublist => .of_forall fun a ha => ?_
    rcases Part.isNote_of_mem_handling (hsublist.subset ha) with hnote | ⟨_, -, hnote⟩ <;>
      cases a <;> first | rfl | cases hnote
  induction h with
  | nil | unread => exact .nil
  | @quiet _ action hquiet =>
    refine .single ?_
    cases action <;> first | rfl | cases hquiet
  | set => exact .single rfl
  | expr _ hsublist | stmt hsublist => exact hown hsublist
  | append _ _ ih ih' => exact ih.append ih'
  | perm _ _ _ ih | body _ ih => exact ih
  | literal _ _ ih => exact ((Discards.single rfl).append ih).append (.single rfl)
  | @args _ _ _ args _ ih =>
    -- the flag is put aside, so it is off within and comes back
    refine ih.bracket (fun flag saved flag' => ⟨flag, rfl, fun h => ⟨h, .args args .nil⟩⟩) ?_
    intro _ _ _ _ _ hflag
    cases hflag
  | assign blank _ ih =>
    -- the flag is what the target says, and off at the end
    refine ih.bracket (fun _ saved _ => ⟨false, rfl, fun h => ?_⟩) ?_
    · cases h
    · intro _ _ before rest hsplit hflag hread
      obtain rfl : blank = true := hflag
      exact ⟨before, ⟨[], _, rest, [], hsplit, rfl, by simp [hsplit]⟩, hread⟩

/-- The arguments of a call, as an expression of their own. -/
theorem discards_exprs (names : Recognizers) (list : List Expr) :
    Discards names (exprsActions names list) := by
  obtain ⟨last, hcomposed⟩ := Expr.composed names (.composite list {})
  exact hcomposed.discards

/-- Where no assignment begins or ends the flag stays on. -/
theorem Unassigned.discard (h : Unassigned names actions) (saved : List Bool) :
    actions.foldl Action.discard (true, saved) = (true, saved) := by
  induction h with
  | nil => rfl
  | cons haction _ ih => rw [List.foldl_cons, Action.discard_eq haction, ih]
  | args list _ ih =>
    obtain ⟨flag, hlist, -⟩ := (discards_exprs names list).after false (true :: saved)
    rw [List.cons_append, List.foldl_cons, List.foldl_append, List.foldl_cons]
    have hclosed := congrArg (Action.discard · .closeArgs) hlist
    exact (congrArg (List.foldl Action.discard · _) hclosed).trans ih

namespace Walk

variable {limits : Limits} {w u : Walk} {n : BindingId}

/-- The events of a binding that are marked because their value is thrown away. -/
def marked (w : Walk) (n : BindingId) : List Event :=
  (w.eventsOf n).filter (·.errorDiscarded)

/-- Without commits whose value is thrown away no event is marked. -/
theorem marked_of_run (hsound : w.Sound limits actions) (hrun : w.run limits actions = .ok u)
    (hkept : ∀ before x rest v, actions = before ++ .finalize x true :: rest →
      w.run limits before = .ok v → v.discarding = false) : u.marked n = w.marked n := by
  induction actions generalizing w with
  | nil =>
    cases hrun
    rfl
  | cons action actions ih =>
    obtain ⟨v, hexec, hrest⟩ := run_cons_eq_ok.mp hrun
    obtain ⟨recorded, hevents, hrecorded⟩ :=
      (exec_rewrites hsound.1.indexed hexec).eventsOf n
    have hnone : recorded.filter (·.errorDiscarded) = [] := by
      refine List.filter_eq_nil_iff.mpr fun event hevent hmark => ?_
      obtain ⟨hkind, hdiscarding⟩ := (hrecorded event hevent).errorDiscarded_iff.mp hmark
      obtain ⟨x, rfl, -⟩ := (hrecorded event hevent).of_directCommit hkind
      rw [hkept [] x actions w rfl rfl] at hdiscarding
      cases hdiscarding
    rw [ih (hsound.2.2 v hexec) hrest fun before x rest t hsplit ht => hkept (action :: before) x
      rest t (by rw [hsplit]; rfl) (run_cons_eq_ok.mpr ⟨v, hexec, ht⟩), marked, hevents,
      List.filter_append, hnone, List.append_nil, marked]

end Walk

namespace FunctionUnit

open Walk

variable {limits : Limits} {unit : FunctionUnit} {w : Walk} {read tail : List Action}

/-- The flag is on exactly where a value is thrown away. -/
theorem discarding_iff_discarded (hactions : unit.actions names = read ++ tail)
    (hrun : Walk.run limits {} read = .ok w) :
    w.discarding = true ↔ Discarded names (unit.actions names) read := by
  have hflag := congrArg Prod.fst (discard_of_run hrun)
  constructor
  · intro hdiscarding
    obtain ⟨last, hcomposed⟩ := composed names (.trivial (.block unit.body))
    rcases hcomposed.discards.within hactions (hflag.symm.trans hdiscarding) with ⟨h, -⟩ | h
    · cases h
    · exact h
  · rintro ⟨lead, ⟨first, -, -, -, -, rfl, -⟩, hlead⟩
    refine hflag.trans ?_
    rw [List.foldl_append, List.foldl_cons]
    exact congrArg Prod.fst (hlead.discard _)

/-- How an assignment to the blank identifier is read. -/
theorem actions_assign_blank (names : Recognizers) (here span : Span) (e : Expr) :
    (Stmt.assign [.ident "_" here] [e] span).actions names =
      [.count, .setSpan span, .beginAssign true] ++ (e.actions names ++ [.endAssign]) := by
  obtain ⟨more, hread, hmore⟩ : ∃ more, (Stmt.assign [.ident "_" here] [e] span).actions names =
      .count :: .setSpan span :: .beginAssign true :: (e.actions names ++ []) ++ .endAssign :: []
        ++ more ∧ more = [] := by
    refine ⟨_, rfl, ?_⟩
    cases names.acquisitionOf [e] <;> rfl
  simp [hread, hmore]

/-- **Thrown away errors.** An event is marked when it is recorded, and only if it is a commit on
the right side of an assignment whose only target is the blank identifier. There it is marked unless
it stands in the arguments of a call or after another assignment, also in the body of a function
literal. So such an assignment marks nothing if all commits in it stand in arguments of calls, and
no other such assignment stands in it. -/
theorem marked_iff_discarded (hactions : unit.actions names = read ++ tail)
    (hrun : Walk.run limits {} read = .ok w) (n : BindingId) :
    (∀ action rest u, tail = action :: rest → w.exec limits action = .ok u →
      ∃ recorded, u.eventsOf n = w.eventsOf n ++ recorded ∧ ∀ event ∈ recorded,
        (event.errorDiscarded = true ↔
          event.kind = .directCommit ∧ Discarded names (unit.actions names) read) ∧
        (event.errorDiscarded = true → InBlank names (unit.actions names) read ∧
          ∃ x, action = .finalize x true ∧ w.resolve x = some n)) ∧
    ∀ here span e last w', tail = (Stmt.assign [.ident "_" here] [e] span).actions names ++ last →
      .beginAssign true ∉ e.actions names →
      (∀ lead x rest, e.actions names = lead ++ .finalize x true :: rest →
        InArguments names (e.actions names) lead) →
      w.run limits ((Stmt.assign [.ident "_" here] [e] span).actions names) = .ok w' →
      w'.marked n = w.marked n := by
  have hsound := (sound_of_actions limits hactions).drop hrun
  constructor
  · rintro action rest u rfl hexec
    obtain ⟨recorded, hevents, hrecorded⟩ := (exec_rewrites hsound.1.indexed hexec).eventsOf n
    refine ⟨recorded, hevents, fun event hevent => ?_⟩
    have hrecords := hrecorded event hevent
    have hmark := hrecords.errorDiscarded_iff
    rw [discarding_iff_discarded hactions hrun] at hmark
    refine ⟨hmark, fun hmarked => ?_⟩
    obtain ⟨hkind, lead, hhalfway, -⟩ := hmark.mp hmarked
    exact ⟨⟨lead, hhalfway⟩, hrecords.of_directCommit hkind⟩
  · rintro here span e last w' rfl hnone hargs hassign
    refine marked_of_run hsound.take hassign fun before x rest v hsplit hv => ?_
    -- the commit is in the arguments of a call, for which the flag was switched off
    rw [actions_assign_blank] at hsplit
    obtain ⟨lead, rest', rfl, he⟩ := exists_middle hsplit (by simp) (by simp)
    obtain ⟨inner, first, args, rest'', last', hlist, rfl, he'⟩ := hargs lead x rest' he
    rw [Bool.eq_false_iff]
    intro hdiscarding
    have hflag := (congrArg Prod.fst (discard_of_run hv)).symm.trans hdiscarding
    rw [List.foldl_append, List.foldl_append, List.foldl_cons] at hflag
    rcases (discards_exprs names args).within hlist hflag with ⟨h, -⟩ | ⟨_, hblank, -⟩
    · cases h
    · refine hnone ?_
      have hmem := hblank.mem
      rw [hlist] at hmem
      rw [he']
      rcases List.mem_append.mp hmem with h | h <;> simp [h]

/-- A function literal without parameters. -/
def committing (stmts : List Stmt) : Expr := .funcLit [] ⟨stmts, {}⟩ {}

/-- The call of a commit of `tx`. -/
def commitCall : Expr := .call (.selector (.ident "tx" {}) "Commit" {}) [] {}

/-- A helper that is given such a literal. -/
def retried : Expr := .call (.ident "retry" {}) [committing [.returnStmt [commitCall] {}]] {}

/-- A function that throws away what the helper returns. -/
def retriesCommit : FunctionUnit where
  name := "Run"
  body := ⟨[beginning {}, .assign [.ident "_" {}] [retried] {}], {}⟩

/-- The commit in the argument is not marked. -/
theorem marked_iff_discarded_retriesCommit :
    ∃ w w', Walk.run {} {} (stmtsActions {} [beginning {}] ++ [.dropGuards]) = .ok w ∧
      w.run {} ((Stmt.assign [.ident "_" {}] [retried] {}).actions {}) = .ok w' ∧
      (w'.eventsOf 0).map (·.kind) = [.directCommit] ∧ w'.marked 0 = [] := by
  obtain ⟨w, w', hw, hw', hevents, hmarked⟩ : ∃ w w',
      Walk.run {} {} (stmtsActions {} [beginning {}] ++ [.dropGuards]) = .ok w ∧
      w.run {} ((Stmt.assign [.ident "_" {}] [retried] {}).actions {}) = .ok w' ∧
      (w'.eventsOf 0).map (·.kind) = [.directCommit] ∧ w.marked 0 = [] := ⟨_, _, rfl, rfl, rfl, rfl⟩
  have hactions : retriesCommit.actions {} = (stmtsActions {} [beginning {}] ++ [.dropGuards]) ++
      ((Stmt.assign [.ident "_" {}] [retried] {}).actions {} ++ []) := rfl
  -- there is one commit in the assignment
  have hargs : ∀ lead x rest, retried.actions {} = lead ++ .finalize x true :: rest →
      InArguments {} (retried.actions {}) lead := by
    intro lead x rest hsplit
    have hread : retried.actions {} = [.mention "retry" {}, .openArgs, .openBody .closure,
        .dropGuards, .count, .setSpan {}, .handOut []] ++ ([.finalize "tx" true] ++
        [.mention "tx" {}, .openArgs, .closeArgs, .exit .byReturn, .closeBody, .closeArgs]) := rfl
    obtain ⟨lead', rest', rfl, hmiddle⟩ :=
      exists_middle (hread.symm.trans hsplit) (by simp) (by simp)
    obtain rfl : lead' = [] := by
      cases lead' with
      | nil => rfl
      | cons a more => simp at hmiddle
    exact ⟨[.openBody .closure, .dropGuards, .count, .setSpan {}, .handOut []],
      [.mention "retry" {}], [committing [.returnStmt [commitCall] {}]],
      [.finalize "tx" true, .mention "tx" {}, .openArgs, .closeArgs, .exit .byReturn, .closeBody],
      [], rfl, rfl, rfl⟩
  have hkept := (marked_iff_discarded hactions hw 0).2 _ _ _ _ w' rfl (by decide) hargs hw'
  exact ⟨w, w', hw, hw', hevents, hkept.trans hmarked⟩

/-- A literal that commits and returns the error. -/
def committer : Expr :=
  committing [.shortVarDecl [.ident "err" {}] [commitCall] {}, .returnStmt [.ident "err" {}] {}]

/-- A function that throws such a literal away. -/
def ignoresLiteral : FunctionUnit where
  name := "run"
  body := ⟨[beginning {}, .deferStmt (.call (.selector (.ident "tx" {}) "Rollback" {}) [] {}) {},
    .assign [.ident "_" {}] [committer] {}], {}⟩

/-- The error of the commit is assigned to a variable in the literal, and the commit is marked all
the same. -/
theorem exists_marked_in_literal :
    ∃ tracked b event, ignoresLiteral.track {} {} = .ok tracked ∧ b ∈ tracked.bindings ∧
      event ∈ b.events ∧ event.errorDiscarded = true ∧
      (tracked.violations "run").map (·.kind) = [.commitErrorIgnored] := by
  obtain ⟨tracked, b, event, htrack, hb, hevent, hmark, hviolations⟩ : ∃ tracked b event,
      ignoresLiteral.track {} {} = .ok tracked ∧ tracked.bindings.head? = some b ∧
      b.events.getLast? = some event ∧ event.errorDiscarded = true ∧
      (tracked.violations "run").map (·.kind) = [.commitErrorIgnored] :=
    ⟨_, _, _, rfl, rfl, rfl, rfl, rfl⟩
  exact ⟨tracked, b, event, htrack, List.mem_of_mem_head? hb, List.mem_of_getLast? hevent, hmark,
    hviolations⟩

end FunctionUnit

end TxLifecycle
