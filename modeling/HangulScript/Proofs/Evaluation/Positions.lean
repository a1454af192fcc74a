import HangulScript.Proofs.Evaluation.Lockstep
import HangulScript.Proofs.Reading.Positions
import HangulScript.Session

/-!
# Evaluating does not look at positions

Let a function be applied to every range of a tree, and to every range in the store that it is
evaluated in: those of values and those in the functions among them.  Then it is evaluated as
before, to the value or the error, with the function applied to every range in it; and so for
the scopes that are left and the events that are recorded.

Ranges are copied from the tree into values, carried along with them, and put into errors; no
step of an evaluation is made to depend on one.  So this is a comparison in which ranges are
related by the function and nothing else differs (`Comparison.relabelling`).  That a tree is read
with the ranges of its tokens is the subject of `HangulScript.Proofs.Reading.Positions`.

Together they say that the layout of a source text is of no account.  Two texts with the same
tokens, wherever these stand, run to the same end, ranges aside: all ranges can be made the same
by a constant function.
-/

namespace HangulScript

/-! ## Other ranges -/

section Maps

variable (f : Range → Range)

/-- The value with a function applied to every range in it. -/
def Value.mapRanges : Value → Value
  | .number r x => .number (f r) x
  | .boolean r b => .boolean (f r) b
  | .string r s => .string (f r) s
  | .empty r => .empty (f r)
  | .function r params body scope =>
    .function (f r) (Node.mapRangesAll f params) (body.mapRanges f) scope
  | .returned v => .returned v.mapRanges

/-- The bindings with a function applied to every range in their values. -/
def Bindings.mapRanges (b : Bindings) : Bindings := b.map fun x => (x.1, x.2.mapRanges f)

/-- The store with a function applied to every range in its values. -/
def Store.mapRanges (s : Store) : Store :=
  ⟨s.scopes.map fun scope => ⟨scope.parent, scope.bindings.mapRanges f⟩, by
    intro id p h hp
    rw [Array.getElem_map] at hp
    exact s.parent_lt id p (by simpa using h) hp⟩

/-- The failure with a function applied to every range in it. -/
def Failure.mapRanges : Failure → Failure
  | .error e => .error (e.mapRanges f)
  | .exhausted => .exhausted
  | .defect d => .defect d

/-- The event with a function applied to its range. -/
def Event.mapRange : Event → Event
  | .statement r text => .statement (f r) text
  | .call signature count r => .call signature count (f r)
  | .binding name text => .binding name text
  | .branch r text => .branch (f r) text

/-- The outcome with a function applied to every range in it. -/
def Evaluation.mapOutcome (outcome : Except Failure Value) : Except Failure Value :=
  (outcome.map (Value.mapRanges f)).mapError (Failure.mapRanges f)

/-- The machine with a function applied to every range in it. -/
def Machine.mapRanges (m : Machine) : Machine :=
  ⟨m.store.mapRanges f, m.events.map (Event.mapRange f)⟩

end Maps

variable {f : Range → Range}

theorem Store.size_mapRanges (s : Store) : (s.mapRanges f).scopes.size = s.scopes.size :=
  Array.size_map ..

theorem Store.parent?_mapRanges (s : Store) (id : ScopeId) :
    (s.mapRanges f).parent? id = s.parent? id := by
  simp only [parent?, mapRanges, Array.getElem?_map]
  cases s.scopes[id]? <;> rfl

theorem Store.bindings_mapRanges (s : Store) (id : ScopeId) :
    (s.mapRanges f).bindings id = (s.bindings id).mapRanges f := by
  simp only [bindings, mapRanges, Array.getElem?_map]
  cases s.scopes[id]? <;> rfl

/-! ## The comparison -/

/-- The same trees under a function on ranges. -/
def Comparison.relabelling (f : Range → Range) (verbosity : Nat) : Comparison where
  range := (f · = ·)
  name := Eq
  named := False
  marks := True
  loud := verbosity
  quiet := verbosity
  cut := False
  bottom := .exhausted
  quiet_le := Nat.le_refl _
  level _ := Nat.le_refl _

namespace Comparison

variable {verbosity : Nat}

theorem oneToOne_relabelling : (relabelling f verbosity).OneToOne := by
  rintro a _ b _ rfl rfl
  exact Iff.rfl

/-- Under a function, a value is like one value only. -/
theorem value_like_iff {v v' : Value} :
    v.Like (relabelling f verbosity) v' ↔ v' = v.mapRanges f := by
  constructor
  · intro h
    induction h with
    | number x hr | boolean x hr | string x hr | empty hr =>
      cases hr
      rfl
    | function hr hps _ hb =>
      cases hr
      rw [hps.eq_mapRangesAll, hb.eq_mapRanges]
      rfl
    | returned _ _ ih =>
      rw [ih]
      rfl
  · rintro rfl
    induction v with
    | number r x => exact .number x rfl
    | boolean r b => exact .boolean b rfl
    | string r s => exact .string s rfl
    | empty r => exact .empty rfl
    | function r params body scope =>
      exact .function rfl (Node.likeAll_mapRangesAll f params False.elim) False.elim
        (Node.like_mapRanges f body False.elim)
    | returned v ih => exact .returned trivial ih

theorem failure_like_eq {failure failure' : Failure}
    (h : failure.Like (relabelling f verbosity) failure') :
    failure' = failure.mapRanges f := by
  cases h with
  | @error cause _ r _ hcause hr =>
    cases hr
    cases hcause with
    | same hfamily =>
      -- A cause that evaluating finds has no token in it.
      have hcause : cause.mapRanges f = cause := by cases cause <;> first | rfl | cases hfamily
      rw [Failure.mapRanges, Error.mapRanges, hcause]
    | unboundIdentifier hn =>
      cases hn
      rfl
  | exhausted => rfl
  | defect => rfl

theorem event_like_eq {e e' : Event} (h : e.Like (relabelling f verbosity) e') :
    e' = e.mapRange f := by
  cases h with
  | statement text hr | branch text hr =>
    cases hr
    rfl
  | @call ns ns' _ _ count hns hr =>
    cases hr
    have hns : ns = ns' := List.forall₂_eq_eq_eq ▸ hns
    rw [hns]
    rfl
  | binding text hn =>
    cases hn
    rfl

theorem bindings_like_iff {b b' : Bindings} :
    b.Like (relabelling f verbosity) b' ↔ b' = b.mapRanges f := by
  constructor
  · intro h
    induction h with
    | nil => rfl
    | @cons x x' rest rest' hx _ ih =>
      obtain ⟨hname, hvalue⟩ := hx
      rw [ih, Bindings.mapRanges, Bindings.mapRanges, List.map_cons]
      exact congrArg (· :: _) (Prod.ext hname.symm (value_like_iff.mp hvalue))
  · rintro rfl
    refine List.forall₂_map_right_iff.mpr (List.forall₂_same.mpr fun x _ => ⟨rfl, ?_⟩)
    exact value_like_iff.mpr rfl

/-- Under a function, a store is like one store only. -/
theorem store_like_iff {s s' : Store} :
    s.Like (relabelling f verbosity) s' ↔ s' = s.mapRanges f := by
  constructor
  · intro h
    refine Store.eq_of_scopes ?_ ?_ ?_
    · rw [Store.size_mapRanges, h.size]
    · intro id
      rw [Store.parent?_mapRanges, h.parent]
    · intro id
      rw [Store.bindings_mapRanges]
      exact bindings_like_iff.mp (h.bindings id)
  · rintro rfl
    refine ⟨(Store.size_mapRanges s).symm, fun id => (Store.parent?_mapRanges s id).symm, ?_⟩
    intro id
    exact bindings_like_iff.mpr (Store.bindings_mapRanges s id)

theorem outcome_like_eq {x y : Except Failure Value}
    (h : OutcomeLike (relabelling f verbosity) (Value.Like (relabelling f verbosity)) x y) :
    y = Evaluation.mapOutcome f x := by
  cases h with
  | ok hv => rw [value_like_iff.mp hv]; rfl
  | error h => rw [failure_like_eq h]; rfl

/-- Under a function, everything that is recorded is heard, and heard at other ranges. -/
theorem heard_eq {new new' : List Event} (h : Heard (relabelling f verbosity) new new') :
    new' = new.map (Event.mapRange f) := by
  have hall : new.filter (fun e => e.level ≤ verbosity) = new :=
    List.filter_eq_self.mpr fun e he => decide_eq_true (h.level_le e he)
  have hlike : List.Forall₂ (Event.Like (relabelling f verbosity)) new new' := by
    rw [← hall]
    exact h.like
  have hmap : List.Forall₂ (Event.mapRange f · = ·) new new' :=
    hlike.imp fun _ _ he => (event_like_eq he).symm
  have heq := List.forall₂_map_left_iff.mpr hmap
  rw [List.forall₂_eq_eq_eq] at heq
  exact heq.symm

/-- Two runs that end alike under a function end in the same way, at other ranges. -/
theorem relates_eq {m : Machine} {r r' : Except Failure Value × Machine}
    (h : Relates (relabelling f verbosity) (Value.Like (relabelling f verbosity)) m
      (m.mapRanges f) r r') :
    r' = (Evaluation.mapOutcome f r.1, r.2.mapRanges f) := by
  obtain ⟨s, hs, hstore⟩ := h.stores
  obtain ⟨new, new', hnew, hnew', hheard⟩ := h.events
  refine Prod.ext (outcome_like_eq h.outcome) ?_
  have hevents : r'.2.events = (r.2.mapRanges f).events := by
    rw [hnew', heard_eq hheard]
    show new.map _ ++ m.events.map _ = r.2.events.map _
    rw [hnew, List.map_append]
  have hscopes : r'.2.store = (r.2.mapRanges f).store := by
    rcases hstore with hstore | ⟨⟨-, hquiet, hloud⟩, -⟩
    · rw [← hstore, store_like_iff.mp hs]
      rfl
    · exact absurd hquiet hloud
  cases hr : r'.2 with
  | mk store events =>
    rw [hr] at hevents hscopes
    exact congr (congrArg Machine.mk hscopes) hevents

end Comparison

namespace Evaluation

open Comparison (relabelling)

theorem reported_mapOutcome (r : Range) (outcome : Except Failure Value) :
    reported (f r) (mapOutcome f outcome) = mapOutcome f (reported r outcome) := by
  cases outcome with
  | ok v => rfl
  | error failure => cases failure <;> rfl

/-- **Evaluating does not look at positions.**  With a function applied to every range of a tree
and of the machine it is evaluated on, everything comes out as before, with the function applied
to every range in it: the value or the failure, the scopes and the events. -/
theorem program_mapRanges (f : Range → Range) (verbosity limit : Nat) (scope : ScopeId)
    (tree : Node) (m : Machine) :
    program verbosity limit scope (tree.mapRanges f) (m.mapRanges f) =
      (mapOutcome f (program verbosity limit scope tree m).1,
        (program verbosity limit scope tree m).2.mapRanges f) := by
  by_cases habs : tree.isAbsent = true
  · cases tree with
    | absent => rfl
    | _ => cases habs
  have hlike : Script.Like (relabelling f verbosity) _ _ _ :=
    Script.like_program (Nat.le_refl limit) (fun hl => absurd hl (Nat.lt_irrefl _))
      scope (Node.like_mapRanges f tree False.elim)
  have heq : (Script.program .exhausted verbosity limit scope (tree.mapRanges f)).run
      (m.mapRanges f) = _ :=
    Comparison.relates_eq (hlike.relates Comparison.oneToOne_relabelling id m (m.mapRanges f)
      (Comparison.store_like_iff.mpr rfl))
  rw [Script.program_eq_run, Script.program_eq_run, heq,
    Node.range_mapRanges f (Bool.not_eq_true _ ▸ habs), reported_mapOutcome]
  rfl

end Evaluation
end HangulScript
