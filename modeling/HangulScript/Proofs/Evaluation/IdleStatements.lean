import HangulScript.Proofs.Evaluation.SameScopes

/-!
# Statements behind a return do not matter

A return statement ends the statements around it, so whatever stands behind it in its list is
never reached: it may call, assign, be in error or hold functions.  Take such statements out of a
program, or put them in, anywhere, and the program comes to the same end and leaves the same
scopes behind it.

The same is to be taken with a grain of salt.  A function keeps its body, with all that stands in
it behind a return, and functions are bound in scopes and come out as values.  So the two runs have
different functions in their scopes, and call them, and what they agree on is up to statements
behind returns in the bodies of functions again.
-/

namespace HangulScript

/-- The second tree is the first with statements put in behind return statements: any statements,
in the same lists of statements as the returns, in any number of places and at any depth.
Everything else is the same, ranges included. -/
def Node.PaddedTo (n n' : Node) : Prop := Variant Eq True n n'

/-- Two evaluations in the same scopes, with the same names, of which the second may have
statements behind returns that the first has not. -/
def Variation.padding : Variation := within Eq True fun _ => True

/-- The same values, up to statements put in behind returns in the bodies of functions. -/
def Value.PaddedTo (v v' : Value) : Prop := v.Varies .padding v'

/-- The same scopes inside one another, which bind the same names in the same order to the same
values, up to statements put in behind returns in the bodies of functions. -/
structure Store.PaddedTo (s s' : Store) : Prop where
  size : s.scopes.size = s'.scopes.size
  parent : ∀ id, s.parent? id = s'.parent? id
  names : ∀ id, s.names id = s'.names id
  lookup : ∀ id name, Option.Rel Value.PaddedTo ((s.bindings id).lookup name)
    ((s'.bindings id).lookup name)

theorem Store.paddedTo_iff {s s' : Store} :
    s.PaddedTo s' ↔ s.SameWithin .padding (fun _ => True) s' := by
  constructor
  · intro h
    refine ⟨h.size, fun _ _ => trivial, fun _ _ _ _ => trivial, fun id _ => h.parent id, ?_⟩
    intro id _
    refine ⟨List.forall₂_eq_eq_eq ▸ h.names id, ?_⟩
    rintro n _ rfl
    exact h.lookup id n
  · intro h
    refine ⟨h.size, fun id => h.parent id trivial, fun id => ?_, fun id name => ?_⟩
    · exact List.forall₂_eq_eq_eq ▸ (h.bindings id trivial).names
    · exact (h.bindings id trivial).lookup rfl

theorem Node.PaddedTo.refl (n : Node) : n.PaddedTo n := variant_self fun _ _ => rfl

theorem Value.PaddedTo.refl (v : Value) : v.PaddedTo v := by
  induction v with
  | number r x => exact .number r x
  | boolean r b => exact .boolean r b
  | string r text => exact .string r text
  | empty r => exact .empty r
  | function r ps b scope =>
    exact .function r (Node.variantAll_self fun _ _ _ _ => rfl) (Node.PaddedTo.refl b)
      ⟨rfl, trivial⟩
  | returned v ih => exact .returned ih

theorem Store.PaddedTo.refl (s : Store) : s.PaddedTo s := by
  refine ⟨rfl, fun _ => rfl, fun _ => rfl, fun id name => ?_⟩
  cases (s.bindings id).lookup name with
  | none => exact .none
  | some v => exact .some (.refl v)

namespace Evaluation

/-- Programs that differ in statements behind returns, in stores that do so as well. -/
theorem program_padded {n n' : Node} (h : n.PaddedTo n') (verbosity limit : Nat)
    (scope : ScopeId) {m m' : Machine} (hm : m.store.PaddedTo m'.store) :
    Agree Value.PaddedTo (program verbosity limit scope n m).1
        (program verbosity limit scope n' m').1 ∧
      (program verbosity limit scope n m).2.store.PaddedTo
        (program verbosity limit scope n' m').2.store ∧
      ∃ new, (program verbosity limit scope n m).2.events = new ++ m.events ∧
        (program verbosity limit scope n' m').2.events = new ++ m'.events := by
  have hone : Relator.BiUnique (@Eq String) :=
    ⟨fun _ _ _ h h' => h.trans h'.symm, fun _ _ _ h h' => h.symm.trans h'⟩
  have hruns : Run.Varies .padding _ (Value.Varies .padding) (program verbosity limit scope n)
      (program verbosity limit scope n') :=
    varies_program (Variation.kept_within hone True fun _ => True) verbosity limit h
      ⟨rfl, trivial⟩
  have hends := hruns m m' (Store.paddedTo_iff.mp hm)
  have hsame : ∀ x x', Variation.padding.name x x' → x = x' := fun _ _ hx => hx
  exact ⟨hends.outcome.agree hsame, Store.paddedTo_iff.mpr hends.stores,
    hends.exists_events hsame⟩

/-- **Statements behind a return never matter.**  Let statements of any sort be put into a tree
behind return statements, anywhere: among its own statements, in the arms of branches and in the
bodies of functions.  Then it is evaluated as before, in every scope of every machine, at every
verbosity and with every limit.  It fails with the same failure, at the same range, or has the
same value; it leaves the same scopes, which bind the same names in the same order to the same
values; and it records the same events.  Values are the same up to such statements in the bodies of
functions. -/
theorem idle_statements_never_matter {n n' : Node} (h : n.PaddedTo n') (verbosity limit : Nat)
    (scope : ScopeId) (m : Machine) :
    Agree Value.PaddedTo (program verbosity limit scope n m).1
        (program verbosity limit scope n' m).1 ∧
      (program verbosity limit scope n m).2.store.PaddedTo
        (program verbosity limit scope n' m).2.store ∧
      (program verbosity limit scope n' m).2.events =
        (program verbosity limit scope n m).2.events := by
  obtain ⟨houtcome, hstores, new, hnew, hnew'⟩ :=
    program_padded h verbosity limit scope (.refl m.store)
  exact ⟨houtcome, hstores, hnew'.trans hnew.symm⟩

/-- A function returns in the arm of a branch.  Behind the return, a name that is not bound is put
in, and behind the branch nothing; the function is called, and what it returns is the same. -/
theorem idle_statements_never_matter_branch :
    let here := Range.point Position.origin
    let name := Node.identifier here
    let give := Node.returnStatement here (.string here "a")
    let bind (arm : List Node) : Node := .expressionStatement here
      (.assignment here (name "ㅎ") (.function here []
        (.block here [.branch here (.boolean here true) (.block here arm) .absent])))
    let call := Node.expressionStatement here (.call here (name "ㅎ") [])
    let tree := Node.program here [bind [give], call]
    let padded := Node.program here [bind [give, .expressionStatement here (name "ㅂ")], call]
    let m : Machine := ⟨Store.empty.addRoot.1, []⟩
    tree.PaddedTo padded ∧ (program 3 9 0 tree m).1 = .ok (.string here "a") ∧
      Agree Value.PaddedTo (program 3 9 0 tree m).1 (program 3 9 0 padded m).1 ∧
      (program 3 9 0 tree m).2.store.PaddedTo (program 3 9 0 padded m).2.store ∧
      (program 3 9 0 padded m).2.events = (program 3 9 0 tree m).2.events := by
  intro here name give bind call tree padded m
  have hbody : Node.VariantStatements Eq True false [give]
      [give, .expressionStatement here (name "ㅂ")] :=
    .cons (Node.PaddedTo.refl give) (.further trivial .nil)
  have harm : (bind [give]).PaddedTo (bind [give, .expressionStatement here (name "ㅂ")]) :=
    .expressionStatement (.assignment here (.identifier here rfl) (.function here .nil
      (.block (.cons (.branch (.boolean here true) (.block hbody) .absent) .nil))))
  have hpadded : tree.PaddedTo padded :=
    .program (.cons harm (.cons (Node.PaddedTo.refl call) .nil))
  exact ⟨hpadded, by decide +kernel, idle_statements_never_matter hpadded 3 9 0 m⟩

end Evaluation
end HangulScript
