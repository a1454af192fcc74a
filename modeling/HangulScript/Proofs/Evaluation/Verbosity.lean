import HangulScript.Proofs.Evaluation.Lockstep

/-!
# Recording changes nothing else

A run can be asked to record more or less of what happens in it.  It ends in the same way
however much that is, and in the same scopes; and what it records at one verbosity is what it
records at the highest, without the events of the classes that were not asked for.

This holds of every tree, but not of every store.  A marker has no text, so where a name is bound
to one, binding it again fails if bindings are recorded, and goes on otherwise.  No run binds a
marker (`HangulScript.Proofs.Evaluation.Containment`); a store in which nothing is bound to one
is all that is assumed.

A tree from elsewhere can leave one trace, in a store and not in an outcome.  A function with a
parameter that is no name cannot be called.  If calls are recorded, that comes out before its
scope is made, and otherwise after it.  Nothing refers to the scope that is then made in vain.
Trees with their nodes in the right places have no such functions.

Verbosities are integers here, as whoever asks for a run may give any; those below zero ask for
nothing, like zero.
-/

namespace HangulScript

/-- No name is bound to a marker. -/
def Store.Unmarked (s : Store) : Prop :=
  ∀ id, ∀ b ∈ s.bindings id, b.2.isReturned = false

/-- No name is bound to a function with a parameter that is no name. -/
def Store.NamesParameters (s : Store) : Prop :=
  ∀ id, ∀ b ∈ s.bindings id, b.2.NamesParameters

/-- The same trees at two verbosities. -/
def Comparison.verbosities (loud quiet : Nat) (h : quiet ≤ loud) (named : Prop) : Comparison where
  range := Eq
  name := Eq
  named := named
  marks := False
  loud := loud
  quiet := quiet
  cut := False
  bottom := .exhausted
  quiet_le := h
  level := False.elim

theorem Comparison.rigid_verbosities {loud quiet : Nat} (h : quiet ≤ loud) (named : Prop) :
    (verbosities loud quiet h named).Rigid := ⟨rfl, rfl⟩

/-- A store is like itself if there are no markers in it, and only names for parameters where
they must be names. -/
theorem Store.Unmarked.like_self {c : Comparison} (hc : c.Rigid) {s : Store} (h : s.Unmarked)
    (hn : c.named → s.NamesParameters) : s.Like c s := by
  refine ⟨rfl, fun _ => rfl, fun id => List.forall₂_same.mpr fun b hb => ⟨?_, ?_⟩⟩
  · rw [hc.name]
  · exact Value.like_self hc (Or.inr (h id b hb)) fun hnamed => hn hnamed id b hb

namespace Evaluation

/-- A run and one that records less: the same outcome, the same store but for a scope made in
vain, and the events that are still asked for. -/
theorem program_quieter {loud quiet : Nat} (h : quiet ≤ loud) (limit : Nat) (scope : ScopeId)
    (tree : Node) {m : Machine} (hm : m.store.Unmarked) :
    (program quiet limit scope tree m).1 = (program loud limit scope tree m).1 ∧
      ((program quiet limit scope tree m).2.store = (program loud limit scope tree m).2.store ∨
        quiet = 0 ∧ ¬ (tree.NamesParameters ∧ m.store.NamesParameters) ∧
          (program loud limit scope tree m).1 = .error (.defect .noName) ∧
          (program loud limit scope tree m).2.store.WritesAtMost none
            (program quiet limit scope tree m).2.store) ∧
      ∃ new, (program loud limit scope tree m).2.events = new ++ m.events ∧
        (program quiet limit scope tree m).2.events =
          new.filter (fun e => e.level ≤ quiet) ++ m.events := by
  have hc := Comparison.rigid_verbosities h (tree.NamesParameters ∧ m.store.NamesParameters)
  have hlike : Script.Like (.verbosities loud quiet h _) _ _ _ :=
    Script.like_program (Nat.le_refl limit) (fun hl => absurd hl (Nat.lt_irrefl _)) scope
      (hc.node_like_self tree And.left)
  obtain ⟨ho, ⟨s, hs, hstore⟩, new, new', hnew, hnew', -, hheard⟩ :=
    hlike.relates hc.oneToOne id m m (hm.like_self hc And.right)
  have hfilter : new' = new.filter fun e => e.level ≤ quiet := by
    have heq := hheard.imp fun e e' he => (he.eq hc).symm
    exact (List.forall₂_eq_eq_eq ▸ heq).symm
  rw [Script.program_eq_run, Script.program_eq_run]
  refine ⟨congrArg (reported tree.range) (ho.eq hc rfl), ?_, new, hnew, ?_⟩
  · rw [hs.eq hc] at hstore
    rcases hstore with hstore | ⟨⟨hn, hq, -⟩, hdefect, hwrites⟩
    · exact Or.inl hstore.symm
    · refine Or.inr ⟨hq, hn, ?_, hwrites⟩
      exact congrArg (reported tree.range) hdefect
  · exact hfilter ▸ hnew'

theorem level_le_three (e : Event) : e.level ≤ 3 := by
  cases e <;> simp [Event.level]

theorem one_le_level (e : Event) : 1 ≤ e.level := by
  cases e <;> simp [Event.level]

/-- An event of some level is asked for by integers as by natural numbers. -/
theorem filter_level_toNat (d : Int) (events : List Event) :
    events.filter (fun e => (e.level : Int) ≤ d) = events.filter fun e => e.level ≤ d.toNat := by
  refine List.filter_congr fun e _ => ?_
  have he := one_le_level e
  rw [decide_eq_decide]
  omega

/-- **Recording changes nothing else, and verbosities nest.**  Any tree, in a store in which no
name is bound to a marker, is evaluated with one outcome at all verbosities.  The scopes are the
same as well; only where a call failed for a parameter that is no name, and nothing was asked to
be recorded, there is a further scope, and the others are the same.  That cannot be where the
tree has its nodes in the right places and parameters of bound functions are names.  The events
recorded are those recorded at verbosity three, from the first to the last, in the same order,
without those of a higher level than was asked for: from one on statements and calls, from two
on bindings, from three on branches, and below one none. -/
theorem verbosity_only_records (limit : Nat) (scope : ScopeId) (tree : Node) (m : Machine)
    (hm : m.store.Unmarked) (d : Int) :
    (program d.toNat limit scope tree m).1 = (program 3 limit scope tree m).1 ∧
      (Node.fits .program tree = true → m.store.NamesParameters →
        (program d.toNat limit scope tree m).2.store = (program 3 limit scope tree m).2.store) ∧
      ((program d.toNat limit scope tree m).2.store = (program 3 limit scope tree m).2.store ∨
        d ≤ 0 ∧ (program 3 limit scope tree m).1 = .error (.defect .noName) ∧
          (program 3 limit scope tree m).2.store.WritesAtMost none
            (program d.toNat limit scope tree m).2.store) ∧
      ∃ told : List Event,
        (program 3 limit scope tree m).2.events = told.reverse ++ m.events ∧
        (program d.toNat limit scope tree m).2.events =
          (told.filter fun e => (e.level : Int) ≤ d).reverse ++ m.events ∧
        (d ≤ 0 → (program d.toNat limit scope tree m).2.events = m.events) := by
  -- Both runs are compared with one that records at least as much as either.
  obtain ⟨ho, hstore, new, hloud, hquiet⟩ :=
    program_quieter (Nat.le_max_left d.toNat 3) limit scope tree hm
  obtain ⟨ho₃, hstore₃, new₃, hloud₃, hquiet₃⟩ :=
    program_quieter (Nat.le_max_right d.toNat 3) limit scope tree hm
  generalize program (max d.toNat 3) limit scope tree m = most
    at ho hstore hloud ho₃ hstore₃ hloud₃
  obtain rfl : new = new₃ := List.append_cancel_right (hloud.symm.trans hloud₃)
  have hsame₃ : (program 3 limit scope tree m).2.store = most.2.store := by
    rcases hstore₃ with h | ⟨hzero, -⟩
    · exact h
    · cases hzero
  rw [← ho₃, ← hsame₃] at hstore
  have hall : new.filter (fun e => e.level ≤ 3) = new :=
    List.filter_eq_self.mpr fun e _ => decide_eq_true (level_le_three e)
  have hevents : (program d.toNat limit scope tree m).2.events =
      (new.reverse.filter fun e => (e.level : Int) ≤ d).reverse ++ m.events := by
    rw [filter_level_toNat, List.filter_reverse, List.reverse_reverse, hquiet]
  refine ⟨ho.trans ho₃.symm, fun hfits hnamed => ?_, ?_, new.reverse, ?_, hevents, fun hd => ?_⟩
  · rcases hstore with h | ⟨-, hn, -⟩
    · exact h
    · exact absurd ⟨Node.namesParameters_of_fits hfits, hnamed⟩ hn
  · rcases hstore with h | ⟨hzero, -, hdefect, hwrites⟩
    · exact Or.inl h
    · exact Or.inr ⟨by omega, hdefect, hwrites⟩
  · rw [hquiet₃, hall, List.reverse_reverse]
  · have hnone : new.filter (fun e => e.level ≤ d.toNat) = [] := by
      refine List.filter_eq_nil_iff.mpr fun e _ => ?_
      have he := one_le_level e
      simp only [decide_eq_true_eq]
      omega
    rw [hquiet, hnone, List.nil_append]

/-- A branch that binds a name, told at verbosity two: the binding is, and that the branch was
decided is not. -/
theorem verbosity_only_records_branch :
    let here := Range.point Position.origin
    let bind := Node.expressionStatement here
      (.assignment here (.identifier here "x") (.string here "a"))
    let tree := Node.program here
      [.branch here (.boolean here true) (.block here [bind]) .absent]
    let m : Machine := ⟨Store.empty.addRoot.1, []⟩
    m.store.Unmarked ∧ Node.fits .program tree = true ∧ m.store.NamesParameters ∧
      (program 2 5 0 tree m).2.events = [.statement here "a", .binding "x" "a"] ∧
      (program 3 5 0 tree m).2.events =
        [.statement here "a", .binding "x" "a", .branch here (Value.truthText true)] ∧
      (program 2 5 0 tree m).1 = (program 3 5 0 tree m).1 ∧
      (program 2 5 0 tree m).2.store = (program 3 5 0 tree m).2.store := by
  intro here bind tree m
  have hm : m.store.Unmarked := by
    intro id b hb
    rw [Store.bindings_addRoot_empty] at hb
    cases hb
  have hn : m.store.NamesParameters := by
    intro id b hb
    rw [Store.bindings_addRoot_empty] at hb
    cases hb
  obtain ⟨houtcome, hstore, -⟩ := verbosity_only_records 5 0 tree m hm 2
  exact ⟨hm, rfl, hn, by decide +kernel, by decide +kernel, houtcome, hstore rfl hn⟩

end Evaluation
end HangulScript
