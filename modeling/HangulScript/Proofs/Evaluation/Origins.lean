import HangulScript.Proofs.Evaluation.Placement
import HangulScript.Proofs.Evaluation.Realization
import HangulScript.Proofs.Grammar.Shapes

/-!
# Every value comes from a node

A value carries the range of the node that first made it, and it may have come a long way from
there: through names, arguments, captured scopes and returns, out of one program and into a
later one.  Nothing on the way gives it another range.  So for every value there is a node in one
of the programs that were run, of a kind that makes such values and with its range.

For texts and functions there is more to say.  There is no operator on texts that gives a text,
and a function is never changed.  So a text is exactly one that stands in a program between
quotes, and a function has the parameters and the body of a function literal.

## Shaped trees

The empty value has the range of a branch, a block or a program, and only a program ends with it.
A tree that is not shaped could have a body of another kind; what is read has none.  So the
discipline is that of shaped trees with one more thing asked: that all nodes are parts of the
programs.
-/

namespace HangulScript

namespace Node

/-- A node stands somewhere in one of some trees. -/
def IsAmong (trees : List Node) (n : Node) : Prop := ∃ tree ∈ trees, n.IsPartOf tree

/-- Whether evaluating a node can make a number. -/
def makesNumber : Node → Bool
  | .number .. => true
  | .unary _ op _ => op == "+" || op == "-"
  | .binary _ op _ _ => Operator.arithmeticOperators.contains op
  | _ => false

/-- Whether evaluating a node can make a truth value. -/
def makesBoolean : Node → Bool
  | .boolean .. => true
  | .unary _ op _ => op == "!"
  | .binary _ op _ _ => Operator.comparisons.contains op
  | _ => false

/-- Whether evaluating a node can come to nothing. -/
def makesEmpty : Node → Bool
  | .branch .. | .block .. | .program .. => true
  | _ => false

theorem makesEmpty_of_statements? {n : Node} (h : n.statements?.isSome = true) :
    n.makesEmpty = true := by
  cases n <;> first | rfl | cases h

theorem IsAmong.child {trees : List Node} {n c : Node} (h : n.IsAmong trees)
    (hc : c ∈ n.children) : c.IsAmong trees := by
  obtain ⟨tree, ht, hn⟩ := h
  exact ⟨tree, ht, hn.child hc⟩

end Node

/-- A value was made by a node in some trees: a number or a truth value over the range of a node
of a kind that makes such, a text or a function by a literal of it. -/
inductive Value.StemsFrom (trees : List Node) : Value → Prop
  | number {n : Node} {x : Double} : n.IsAmong trees → n.makesNumber = true →
      StemsFrom trees (.number n.range x)
  | boolean {n : Node} {b : Bool} : n.IsAmong trees → n.makesBoolean = true →
      StemsFrom trees (.boolean n.range b)
  | string {r : Range} {text : String} : (Node.string r text).IsAmong trees →
      StemsFrom trees (.string r text)
  | function {r : Range} {params : List Node} {body : Node} {scope : ScopeId} :
      (Node.function r params body).IsAmong trees →
      StemsFrom trees (.function r params body scope)

/-- All that is bound in a store was made by nodes in some trees. -/
def Store.StemsFrom (trees : List Node) (s : Store) : Prop :=
  ∀ id name v, (s.bindings id).lookup name = some v → v.StemsFrom trees

namespace Evaluation

/-- Shaped parts of some trees, and the shaped values that stem from them. -/
def stemming (trees : List Node) : Discipline where
  allows role n := shapely.allows role n ∧ n.IsAmong trees
  admits v := shapely.admits v ∧ v.StemsFrom trees
  vacates r := ∃ n : Node, n.IsAmong trees ∧ n.makesEmpty = true ∧ n.range = r
  shaped := True
  part h hp := ⟨shapely.part h.1 hp, h.2.child hp.mem_children⟩
  serves _ h := shapely.serves trivial h.1
  firstClass h := shapely.firstClass h.1
  number h := ⟨rfl, .number h.2 rfl⟩
  boolean h := ⟨rfl, .boolean h.2 rfl⟩
  string h := ⟨rfl, .string h.2⟩
  sign h hop := ⟨rfl, .number h.2 (by rcases hop with rfl | rfl <;> rfl)⟩
  negation h := ⟨rfl, .boolean h.2 rfl⟩
  arithmetic h hop := ⟨rfl, .number h.2 (List.contains_iff_mem.mpr hop)⟩
  comparison h hop := ⟨rfl, .boolean h.2 (List.contains_iff_mem.mpr hop)⟩
  function h := ⟨shapely.function h.1, .function h.2⟩
  parameters h p hp := by
    obtain ⟨hshaped, hstems⟩ := h
    refine ⟨shapely.parameters hshaped p hp, ?_⟩
    cases hstems with
    | function hn => exact hn.child (List.mem_append_left _ hp)
  body h := by
    obtain ⟨hshaped, hstems⟩ := h
    refine ⟨shapely.body hshaped, ?_⟩
    cases hstems with
    | function hn => exact hn.child (List.mem_append_right _ (List.mem_singleton_self _))
  emptyBranch h := ⟨_, h.2, rfl, rfl⟩
  emptyBlock h := ⟨_, h.2, Node.makesEmpty_of_statements? (shapely.serves trivial h.1), rfl⟩
  emptyProgram h := ⟨_, h.2, Node.makesEmpty_of_statements? (shapely.serves trivial h.1), rfl⟩

/-! ## Runs -/

/-- A test that is passed by every evaluation that finds values from some trees only, and leaves
and has such values only. -/
def Test.PassesWhatStems (test : Test) (trees : List Node) : Prop :=
  ∀ node scope m result, m.store.StemsFrom trees → result.2.store.StemsFrom trees →
    (∀ v, result.1 = .ok v → v.StemsFrom trees) → test node scope m result = true

/-- A session runs a tree with values from some trees only.  Such values are all that is bound
afterwards, in whatever scope; and so is the result, unless it is empty, and then it is over the
range of a node that can come to nothing.  It is not different at any moment of the run: no
test that such values pass ever fails, at whatever expression that is evaluated on the way. -/
structure RunsWhatStems (trees : List Node) (s : Session) (tree : Node) : Prop where
  bound : (s.run Session.root tree).2.store.StemsFrom trees
  result : ∀ v, (s.run Session.root tree).1.outcome = .ok v → v.StemsFrom trees ∨
    ∃ n : Node, n.IsAmong trees ∧ n.makesEmpty = true ∧ v = .empty n.range
  throughout : ∀ (test : Test) (breach : Failure), test.PassesWhatStems trees →
    programWith s.verbosity (testedExpression test breach s.verbosity nestingLimit) Session.root
        tree ⟨s.store, []⟩ =
      programWith s.verbosity (expression s.verbosity nestingLimit) Session.root tree ⟨s.store, []⟩

variable {trees : List Node}

/-- All scopes of a store bind shaped values from some trees. -/
abbrev StemsThroughout (trees : List Node) (s : Store) : Prop :=
  (stemming trees).Confined (fun _ => True) s

theorem stemsFrom_of_confined {s : Store} (h : StemsThroughout trees s) : s.StemsFrom trees :=
  fun id name v hv => (h.bound id name v trivial hv).1.2

theorem stemsThroughout_start (trees : List Node) (verbosity : Nat) :
    StemsThroughout trees (Session.start verbosity).store := by
  refine ⟨fun _ _ => trivial, fun _ _ _ _ => trivial, fun id name v _ hv => ?_⟩
  rw [Session.start, Store.bindings_addRoot_empty] at hv
  cases hv

/-- What passes what stems lets the discipline pass. -/
theorem Test.PassesWhatStems.allows {test : Test} (h : test.PassesWhatStems trees) :
    test.Allows (stemming trees) fun _ => True := by
  intro node scope m result _ hm hresult hends
  refine h node scope m result (stemsFrom_of_confined hm) (stemsFrom_of_confined hresult) ?_
  intro v hv
  rw [hv] at hends
  exact hends.1.2

/-- A shaped tree among some trees is run with values from them only. -/
theorem runsWhatStems_of_fits {s : Session} (hs : StemsThroughout trees s.store) {tree : Node}
    (hfits : Node.fits .program tree = true) (ht : tree ∈ trees) :
    RunsWhatStems trees s tree ∧ StemsThroughout trees (s.run Session.root tree).2.store := by
  have hallowed : (stemming trees).allows .program tree := ⟨hfits, tree, ht, .whole⟩
  have hstays : Stays (stemming trees) (fun _ => True) ((stemming trees).Concludes fun _ => True)
      (program s.verbosity nestingLimit Session.root tree)
      (program s.verbosity nestingLimit Session.root tree) :=
    stays_program s.verbosity nestingLimit trivial hallowed
  obtain ⟨-, hstore, hends⟩ := hstays ⟨s.store, []⟩ hs
  refine ⟨⟨stemsFrom_of_confined hstore, fun v hv => ?_, fun test breach htest => ?_⟩, hstore⟩
  · unfold Session.run at hv
    cases hx : (program s.verbosity nestingLimit Session.root tree ⟨s.store, []⟩).1 with
    | error failure =>
      simp only [hx] at hv
      cases hv
    | ok w =>
      rw [hx] at hends
      simp only [hx] at hv
      cases hv
      obtain ⟨hc, hr⟩ := hends
      cases hc with
      | value hgood => exact Or.inl hgood.1.2
      | returned => cases hr
      | empty hn =>
        obtain ⟨n, hn, hempty, rfl⟩ := hn
        exact Or.inr ⟨n, hn, hempty, rfl⟩
  · have htested := stays_expression htest.allows breach s.verbosity nestingLimit
    have hprogram : Stays _ _ _ (programWith s.verbosity _ Session.root tree)
        (programWith s.verbosity _ Session.root tree) :=
      stays_programWith htested trivial hallowed
    exact (hprogram ⟨s.store, []⟩ hs).1.symm

/-- A session goes on binding values from the trees that it runs. -/
theorem stemsThroughout_after (rest : List Node)
    (hrest : ∀ t ∈ rest, Node.fits .program t = true ∧ t ∈ trees) {s : Session}
    (hs : StemsThroughout trees s.store) : StemsThroughout trees (s.after rest).store := by
  induction rest generalizing s with
  | nil => exact hs
  | cons first rest ih =>
    obtain ⟨hfits, hfirst⟩ := hrest first (List.mem_cons_self ..)
    exact ih (fun t ht => hrest t (List.mem_cons_of_mem _ ht))
      (runsWhatStems_of_fits hs hfits hfirst).2

/-- **Every value comes from a node.**  Run programs that are read from tokens, one after the
other, in a session that begins with nothing bound.  Every value that is bound afterwards, in any
scope, carries the range of a node in one of the programs, of a kind that makes such values; a
text is one that stands there, and a function has the parameters and the body of a literal there.
So does the result of the last run, unless it is empty, and then it carries the range of a
branch, a block or a program.  And this is so all along. -/
theorem values_stem_from_nodes (verbosity : Nat) (earlier : List Node) (tree : Node)
    (h : ∀ t ∈ earlier ++ [tree], ∃ limit stream, Grammar.program limit stream = .ok t) :
    RunsWhatStems (earlier ++ [tree]) ((Session.start verbosity).after earlier) tree := by
  have hfits : ∀ t ∈ earlier ++ [tree], Node.fits .program t = true := by
    intro t ht
    obtain ⟨limit, stream, hread⟩ := h t ht
    exact Grammar.fits_of_program hread
  have htree : tree ∈ earlier ++ [tree] := List.mem_append_right _ (List.mem_singleton_self tree)
  have hbefore :
      StemsThroughout (earlier ++ [tree]) ((Session.start verbosity).after earlier).store :=
    stemsThroughout_after earlier
      (fun t ht => ⟨hfits t (List.mem_append_left _ ht), List.mem_append_left _ ht⟩)
      (stemsThroughout_start _ verbosity)
  exact (runsWhatStems_of_fits hbefore (hfits tree htree) htree).1

/-- A text that one program binds is the result of the next, with the range that it has in the
first. -/
theorem values_stem_from_nodes_text :
    let place (first last : Int) : Range := ⟨⟨0, first⟩, ⟨0, last⟩⟩
    let text := Node.string (place 4 6) "글"
    let first := Node.program (place 0 6) [.expressionStatement (place 0 6)
      (.assignment (place 0 6) (.identifier (place 0 0) "ㄱ") text)]
    let second := Node.program (place 0 0)
      [.expressionStatement (place 0 0) (.identifier (place 0 0) "ㄱ")]
    let s := (Session.start 0).after [first]
    (∀ t ∈ [first] ++ [second], ∃ limit stream, Grammar.program limit stream = .ok t) ∧
      (s.run Session.root second).1.outcome.toOption = some (.string (place 4 6) "글") ∧
      RunsWhatStems ([first] ++ [second]) s second := by
  intro place text first second s
  have hread : ∀ t ∈ [first] ++ [second],
      ∃ limit stream, Grammar.program limit stream = .ok t := by
    have hfirst : (Grammar.program 40 (TokenStream.scan "ㄱ = '글'")).toOption = some first := by
      decide +kernel
    have hsecond : (Grammar.program 40 (TokenStream.scan "ㄱ")).toOption = some second := by
      decide +kernel
    intro t ht
    rcases List.mem_cons.mp ht with rfl | ht
    · exact ⟨40, _, except_eq_ok_of_toOption hfirst⟩
    · obtain rfl := List.mem_singleton.mp ht
      exact ⟨40, _, except_eq_ok_of_toOption hsecond⟩
  exact ⟨hread, by decide +kernel, values_stem_from_nodes 0 [first] second hread⟩

end Evaluation
end HangulScript
