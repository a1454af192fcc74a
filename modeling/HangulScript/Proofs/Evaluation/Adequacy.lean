import HangulScript.Proofs.Evaluation.Realization

/-!
# Evaluating is the natural semantics

What the rules derive, the evaluator comes to.  This is by induction on the derivation, and
says that *every* limit that is high enough gives the outcome: so the limits that the parts
need can be joined.

Each rule is a lemma of its own (`Sound`), about what its parts come to.  All of them begin in the
same way.  A part is carried out, and what it leaves is confined and good, so that the next part
can be carried out as well (`Sound.run`).  If the first part raises an error, that is all there is
to say (`Sound.passed`).

Together with `HangulScript.Proofs.Evaluation.Realization` this makes the rules the meaning of
programs.  A program for which they derive nothing reaches every limit.
-/

namespace HangulScript
namespace Evaluation

open Node (Role)

variable {R : ScopeId → Prop}

/-! ## From the rules to the evaluator -/

/-- With every limit that is high enough, a run takes a store to an outcome and a store. -/
def Converges {α : Type} (x : Nat → Run α) (s : Store) (outcome : Except Failure α) (s' : Store) :
    Prop :=
  ∃ enough, ∀ limit, enough ≤ limit → Takes (x limit) s outcome s'

namespace Converges

variable {α β : Type} {x : Nat → Run α} {f : Nat → α → Run β} {s s' s'' : Store} {a : α}

theorem of_takes {outcome : Except Failure α} (h : ∀ limit, Takes (x limit) s outcome s') :
    Converges x s outcome s' := ⟨0, fun limit _ => h limit⟩

theorem bind {outcome : Except Failure β} (h : Converges x s (.ok a) s')
    (hf : Converges (fun limit => f limit a) s' outcome s'') :
    Converges (fun limit => x limit >>= f limit) s outcome s'' := by
  obtain ⟨n, hn⟩ := h
  obtain ⟨k, hk⟩ := hf
  refine ⟨max n k, fun limit hl => ?_⟩
  exact (hn limit (by omega)).bind (hk limit (by omega))

theorem bind_error {failure : Failure} (h : Converges x s (.error failure) s') :
    Converges (fun limit => x limit >>= f limit) s (.error failure) s' := by
  obtain ⟨n, hn⟩ := h
  exact ⟨n, fun limit hl => (hn limit hl).bind_error⟩

/-- Recording an event does not matter to what follows. -/
theorem recorded {verbosity needed : Nat} {e : Event} {y : Nat → Run β}
    {outcome : Except Failure β} (h : Converges y s outcome s') :
    Converges (fun limit => Run.whenVerbose verbosity needed (Run.record e) >>= fun _ => y limit) s
      outcome s' :=
  bind (of_takes fun _ => .whenVerbose (.record e s)) h

/-- What a run comes to from what it goes on with. -/
theorem map {y : Nat → Run β} {outcome : Except Failure α} {outcome' : Except Failure β}
    {t t' : Store} (h : Converges x s outcome s')
    (hy : ∀ limit, Takes (x limit) s outcome s' → Takes (y limit) t outcome' t') :
    Converges y t outcome' t' := by
  obtain ⟨n, hn⟩ := h
  exact ⟨n, fun limit hl => hy limit (hn limit hl)⟩

theorem exists_run {outcome : Except Failure α} (h : Converges x s outcome s') :
    ∃ limit events, x limit ⟨s, []⟩ = (outcome, ⟨s', events⟩) := by
  obtain ⟨n, hn⟩ := h
  obtain ⟨events, he⟩ := hn n (Nat.le_refl n) []
  exact ⟨n, events, he⟩

/-- A run that stays in bounds leaves a confined store, and a good result if it has one. -/
theorem stays {D : Discipline} {good : α → Prop} {outcome : Except Failure α}
    (h : Converges x s outcome s') (hx : ∀ limit, Stays D R good (x limit) (x limit))
    (hs : D.Confined R s) : D.Confined R s' ∧ Ends good D.Fails outcome := by
  obtain ⟨n, events, he⟩ := h.exists_run
  obtain ⟨-, hstore, hends⟩ := hx n ⟨s, []⟩ hs
  rw [he] at hstore hends
  exact ⟨hstore, hends⟩

/-- One level more is enough for an expression, if so many are for those inside it. -/
theorem succ {verbosity : Nat} {node : Node} {scope : ScopeId} {outcome : Except Failure Value}
    (h : Converges (fun limit => expressionWith verbosity (expression verbosity limit) node scope)
      s outcome s') :
    Converges (fun limit => expression verbosity limit node scope) s outcome s' := by
  obtain ⟨n, hn⟩ := h
  refine ⟨n + 1, fun limit hl => ?_⟩
  obtain ⟨k, rfl⟩ : ∃ k, limit = k + 1 := ⟨limit - 1, by omega⟩
  exact hn k (by omega)

end Converges

namespace Outcome

/-- How a run ends that comes to an outcome. -/
def result : Outcome → Except Failure Value
  | .value v => .ok v
  | .returns v => .ok (.returned v)
  | .raises e => .error (.error e)
  | .values _ => .error .exhausted

/-- How a run over arguments ends that comes to an outcome. -/
def results : Outcome → Except Failure (List Value)
  | .values vs => .ok vs
  | .raises e => .error (.error e)
  | _ => .error .exhausted

/-- An outcome that is no marker for its value. -/
def Unmarked : Outcome → Prop
  | .value v => v.isReturned = false
  | _ => True

end Outcome

namespace Task

/-- A task of a shaped tree. -/
def Allowed (R : ScopeId → Prop) : Task → Prop
  | .expression node => Node.fits .expression node = true
  | .arguments nodes => ∀ n ∈ nodes, Node.fits .expression n = true
  | .application params body captured values _ =>
    (∃ r, shapely.Good R (.function r params body captured)) ∧ ∀ v ∈ values, shapely.Good R v
  | .statement node => Node.fits .statement node = true
  | .block node => Node.fits .block node = true
  | .statements last nodes | .topLevel last nodes =>
    last.isReturned = false ∧ ∀ n ∈ nodes, Node.fits .statement n = true
  | .program node => Node.fits .program node = true

/-- The evaluator's run of a task comes to an outcome. -/
def ComesTo (verbosity : Nat) (scope : ScopeId) (s : Store) (o : Outcome) (s' : Store) :
    Task → Prop
  | .expression node => Converges (fun limit => Evaluation.expression verbosity limit node scope) s
      o.result s'
  | .arguments nodes => Converges (fun limit =>
      Evaluation.arguments (Evaluation.expression verbosity limit) scope nodes) s o.results s'
  | .application params body captured values range => Converges (fun limit =>
      callFunction verbosity (Evaluation.expression verbosity limit) params body captured values
        range) s o.result s'
  | .statement node => Converges (fun limit =>
      Evaluation.statement verbosity (Evaluation.expression verbosity limit) scope node) s
        o.result s'
  | .block node => Converges (fun limit =>
      Evaluation.block verbosity (Evaluation.expression verbosity limit) scope node) s o.result s'
  | .statements last nodes => Converges (fun limit =>
      Evaluation.statements verbosity (Evaluation.expression verbosity limit) scope last nodes) s
        o.result s'
  | .program node => Converges (fun limit =>
      programWith verbosity (Evaluation.expression verbosity limit) scope node) s o.result s'
  | .topLevel last nodes => Converges (fun limit =>
      Evaluation.topLevel verbosity (Evaluation.expression verbosity limit) scope last nodes) s
        o.result s'

/-- What a task leaves that others go on from: a confined store, and a good result if it has one. -/
def Leaves (R : ScopeId → Prop) (o : Outcome) (s' : Store) : Task → Prop
  | .expression _ => shapely.Confined R s' ∧ Ends (shapely.Good R) shapely.Fails o.result
  | .arguments _ =>
    shapely.Confined R s' ∧ Ends (fun vs => ∀ v ∈ vs, shapely.Good R v) shapely.Fails o.results
  | .statement _ | .block _ =>
    shapely.Confined R s' ∧ Ends (shapely.Completes R) shapely.Fails o.result
  | _ => True

variable {verbosity : Nat} {s s' : Store} {scope : ScopeId} {o : Outcome}

theorem ComesTo.leaves {task : Task} (h : task.ComesTo verbosity scope s o s')
    (ht : task.Allowed R) (hr : R scope) (hs : shapely.Confined R s) : task.Leaves R o s' := by
  have he := stays_expression_self (D := shapely) (R := R) verbosity
  cases task with
  | expression node => exact h.stays (fun limit => he limit node scope ht hr) hs
  | arguments nodes => exact h.stays (fun limit => stays_arguments (he limit) hr ht) hs
  | statement node =>
    obtain ⟨hs', hends⟩ := h.stays (fun limit => stays_statement (he limit) hr node ht) hs
    exact ⟨hs', Ends.mono hends (fun _ hf => hf) fun _ hv => hv.1⟩
  | block node => exact h.stays (fun limit => stays_block (he limit) hr node ht) hs
  | _ => trivial

end Task

/-! ## Operators and calls without their events -/

theorem takes_unaryResult {r : Range} {op : String} {v w : Value} (h : FrontMeans r op v w)
    (s : Store) : Takes (unaryResult r op v) s (.ok w) s := by
  rw [(unaryResult_of_means h).1]
  exact .done w s

theorem takes_unaryResult_of_refused {r : Range} {op : String} {v : Value}
    (h : ∀ w, ¬ FrontMeans r op v w) (s : Store) :
    Takes (unaryResult r op v) s (.error (.error ⟨.badUnary op v.typeName, r⟩)) s := by
  rcases unaryResult_eq r op v with ⟨w, hw, -⟩ | ⟨-, heq⟩
  · exact absurd hw (h w)
  · rw [heq]
    exact .fail _ s

theorem takes_binaryResult {r : Range} {op : String} {v v' w : Value}
    (h : InfixMeans r op v v' w) (s : Store) : Takes (binaryResult r op v v') s (.ok w) s := by
  rw [(binaryResult_of_means h).1]
  exact .done w s

theorem takes_binaryResult_of_refused {r : Range} {op : String} {v v' : Value}
    (h : ∀ w, ¬ InfixMeans r op v v' w) (s : Store) :
    Takes (binaryResult r op v v') s
      (.error (.error ⟨.badBinary op v.typeName v'.typeName, r⟩)) s := by
  rcases binaryResult_eq r op v v' with ⟨w, hw, -⟩ | ⟨-, heq⟩
  · exact absurd hw (h w)
  · rw [heq]
    exact .fail _ s

/-- A call with the right number of arguments is what its body comes to in the scope that is made
for it. -/
theorem takes_callFunction {verbosity : Nat} {s s' : Store} {eval : Evaluator}
    {params : List Node} {body : Node} {captured : ScopeId} {values : List Value} {range : Range}
    {names : List String} {outcome : Except Failure Value} (hl : values.length = params.length)
    (hnames : Value.paramNames? params = some names) (hv : ∀ v ∈ values, v.isFirstClass = true)
    (h : Takes (block verbosity eval (s.addChild captured).2 body >>= finish body.range)
      ((s.addChild captured).1.bindAll (s.addChild captured).2 (names.zip values)) outcome s') :
    Takes (callFunction verbosity eval params body captured values range) s outcome s' := by
  rw [callFunction, if_neg (not_not_intro hl)]
  refine (Takes.whenVerbose (.recordCall hnames _ _ _)).bind ((Takes.addChild captured s).bind ?_)
  exact (Takes.bindParams _ hnames hv _).bind h

/-! ## Rule by rule -/

/-- A task is carried out as the rules say: in a scope of the region and from a confined store, the
evaluator comes to the outcome.  A normal completion is no marker. -/
def Sound (R : ScopeId → Prop) (verbosity : Nat) (s : Store) (scope : ScopeId) (task : Task)
    (o : Outcome) (s' : Store) : Prop :=
  task.Allowed R → R scope → shapely.Confined R s →
    task.ComesTo verbosity scope s o s' ∧ o.Unmarked

namespace Sound

variable {verbosity : Nat} {s s₁ s₂ : Store} {scope : ScopeId} {o o₂ : Outcome}

/-- The evaluator carries out a part, and what it leaves is confined and good. -/
theorem run {task : Task} (h : Sound R verbosity s scope task o s₁) (ht : task.Allowed R)
    (hr : R scope) (hs : shapely.Confined R s) :
    task.ComesTo verbosity scope s o s₁ ∧ o.Unmarked ∧ task.Leaves R o s₁ := by
  obtain ⟨hx, ho⟩ := h ht hr hs
  exact ⟨hx, ho, hx.leaves ht hr hs⟩

/-- What the first part of a task raises, the task raises. -/
theorem passed {whole first : Task} {err : Error}
    (h : Sound R verbosity s scope first (.raises err) s₁)
    (hallowed : whole.Allowed R → first.Allowed R)
    (hpass : first.ComesTo verbosity scope s (.raises err) s₁ →
      whole.ComesTo verbosity scope s (.raises err) s₁) :
    Sound R verbosity s scope whole (.raises err) s₁ :=
  fun ht hr hs => ⟨hpass (h (hallowed ht) hr hs).1, trivial⟩

/-! ### Expressions -/

/-- Expressions in which no others are evaluated. -/
theorem leaf {node : Node}
    (h : ∀ eval, Takes (expressionWith verbosity eval node scope) s o.result s)
    (ho : R scope → shapely.Confined R s → o.Unmarked) :
    Sound R verbosity s scope (.expression node) o s :=
  fun _ hr hs => ⟨.succ (.of_takes fun _ => h _), ho hr hs⟩

theorem unary {r : Range} {op : String} {e : Node} {v : Value}
    (h : Sound R verbosity s scope (.expression e) (.value v) s₁)
    (hend : Takes (unaryResult r op v) s₁ o.result s₁) (ho : o.Unmarked) :
    Sound R verbosity s scope (.expression (.unary r op e)) o s₁ := by
  intro ht hr hs
  obtain ⟨hx, -⟩ := h (Node.fits_part ht .operand) hr hs
  exact ⟨.succ (Converges.bind hx (.of_takes fun _ => hend)), ho⟩

/-- The right operand comes to something, and the operator goes on from there. -/
theorem binary {r : Range} {op : String} {a b : Node} {v : Value}
    (ha : Sound R verbosity s scope (.expression a) (.value v) s₁)
    (hb : Sound R verbosity s₁ scope (.expression b) o₂ s₂)
    (hend : (Task.expression b).ComesTo verbosity scope s₁ o₂ s₂ →
      Converges (fun limit => expression verbosity limit b scope >>= binaryResult r op v) s₁
        o.result s₂)
    (ho : o.Unmarked) : Sound R verbosity s scope (.expression (.binary r op a b)) o s₂ := by
  intro ht hr hs
  obtain ⟨hx, -, hs₁, -⟩ := ha.run (Node.fits_part ht .left) hr hs
  obtain ⟨hy, -⟩ := hb (Node.fits_part ht .right) hr hs₁
  exact ⟨.succ (Converges.bind hx (hend hy)), ho⟩

theorem assignment {r r' : Range} {name : String} {b : Node} {v : Value}
    (h : Sound R verbosity s scope (.expression b) (.value v) s₁) :
    Sound R verbosity s scope (.expression (.assignment r (.identifier r' name) b)) (.value v)
      (s₁.bind scope name v) := by
  intro ht hr hs
  obtain ⟨hx, hv, -, hgood⟩ := h.run (Node.fits_part ht .assigned) hr hs
  refine ⟨.succ (Converges.bind hx (.of_takes fun _ => ?_)), hv⟩
  exact (Takes.bindName scope name (Discipline.Good.isFirstClass hgood) s₁).bind (.done v _)

/-! ### Calls -/

/-- What is called is a function; the arguments are evaluated, and the call goes on from there. -/
theorem called {r r' : Range} {f body : Node} {args params : List Node} {captured : ScopeId}
    (hf : Sound R verbosity s scope (.expression f) (.value (.function r' params body captured)) s₁)
    (ha : Sound R verbosity s₁ scope (.arguments args) o₂ s₂) {s₃ : Store}
    (hend : R scope → shapely.Good R (.function r' params body captured) →
      (Task.arguments args).ComesTo verbosity scope s₁ o₂ s₂ →
      (Task.arguments args).Leaves R o₂ s₂ →
      Converges (fun limit => arguments (expression verbosity limit) scope args >>= fun vs =>
        callFunction verbosity (expression verbosity limit) params body captured vs r) s₁
          o.result s₃ ∧ o.Unmarked) :
    Sound R verbosity s scope (.expression (.call r f args)) o s₃ := by
  intro ht hr hs
  obtain ⟨hx, -, hs₁, hgood⟩ := hf.run (Node.fits_part ht .callee) hr hs
  obtain ⟨hy, -, hleaves⟩ := ha.run (fun _ hm => Node.fits_part ht (.argument hm)) hr hs₁
  obtain ⟨hz, ho⟩ := hend hr hgood hy hleaves
  exact ⟨.succ (Converges.bind hx hz), ho⟩

theorem notCallable {r : Range} {f : Node} {args : List Node} {v : Value}
    (h : Sound R verbosity s scope (.expression f) (.value v) s₁)
    (hn : ∀ r' params body captured, v ≠ .function r' params body captured) :
    Sound R verbosity s scope (.expression (.call r f args))
      (.raises ⟨.notCallable v.typeName, f.range⟩) s₁ := by
  intro ht hr hs
  obtain ⟨hx, -⟩ := h (Node.fits_part ht .callee) hr hs
  refine ⟨.succ (Converges.bind hx (.of_takes fun _ => ?_)), trivial⟩
  cases v with
  | function r' params body captured => exact absurd rfl (hn r' params body captured)
  | _ => exact .fail _ s₁

/-- The first argument has a value, the others come to something, and the list goes on from
there. -/
theorem argument {a : Node} {rest : List Node} {v : Value}
    (ha : Sound R verbosity s scope (.expression a) (.value v) s₁)
    (hrest : Sound R verbosity s₁ scope (.arguments rest) o₂ s₂)
    (hend : (Task.arguments rest).ComesTo verbosity scope s₁ o₂ s₂ →
      Converges (fun limit => arguments (expression verbosity limit) scope rest >>= fun vs =>
        pure (v :: vs)) s₁ o.results s₂)
    (ho : o.Unmarked) : Sound R verbosity s scope (.arguments (a :: rest)) o s₂ := by
  intro ht hr hs
  obtain ⟨hx, -, hs₁, -⟩ := ha.run (ht a (List.mem_cons_self ..)) hr hs
  obtain ⟨hy, -⟩ := hrest (fun n hn => ht n (List.mem_cons_of_mem _ hn)) hr hs₁
  exact ⟨Converges.bind hx (hend hy), ho⟩

/-- The body comes to something in the scope that is made for it, and the call ends with that. -/
theorem application {captured : ScopeId} {r : Range} {params : List Node} {body : Node}
    {vs : List Value} {names : List String} (hl : vs.length = params.length)
    (hnames : Value.paramNames? params = some names)
    (h : Sound R verbosity ((s.addChild captured).1.bindAll (s.addChild captured).2 (names.zip vs))
      (s.addChild captured).2 (.block body) o₂ s₁)
    (hend : ∀ {x : Nat → Run Value} {t : Store}, o₂.Unmarked → Converges x t o₂.result s₁ →
      Converges (fun limit => x limit >>= finish body.range) t o.result s₁)
    (ho : Ends (shapely.Completes R) shapely.Fails o₂.result → o.Unmarked) :
    Sound R verbosity s scope (.application params body captured vs r) o s₁ := by
  rintro ⟨⟨r', hf⟩, hv⟩ - hs
  obtain ⟨hbound, hid⟩ := confined_of_application hf hv hs names
  obtain ⟨hx, hret, -, hc⟩ := h.run (shapely.body hf.1) hid hbound
  refine ⟨(hend hret hx).map fun _ => takes_callFunction hl hnames ?_, ho hc⟩
  exact fun v hm => (hv v hm).isFirstClass

/-! ### Statements -/

/-- The predicate has a value, and the arm that it takes comes to something. -/
theorem branch {r r' : Range} {p c a : Node} {decision : Bool}
    (hp : Sound R verbosity s scope (.expression p) (.value (.boolean r' decision)) s₁)
    (hend : Node.fits .statement (.branch r p c a) = true → R scope → shapely.Confined R s₁ →
      Converges (fun limit =>
        if decision = true then block verbosity (expression verbosity limit) scope c
        else if a.isAbsent = true then pure (.empty r)
        else block verbosity (expression verbosity limit) scope a) s₁ o.result s₂ ∧ o.Unmarked) :
    Sound R verbosity s scope (.statement (.branch r p c a)) o s₂ := by
  intro ht hr hs
  obtain ⟨hx, -, hs₁, -⟩ := hp.run (Node.fits_part ht .predicate) hr hs
  obtain ⟨hy, ho⟩ := hend ht hr hs₁
  exact ⟨Converges.bind hx (.recorded hy), ho⟩

theorem badPredicate {r : Range} {p c a : Node} {v : Value}
    (h : Sound R verbosity s scope (.expression p) (.value v) s₁)
    (hn : ∀ r' b, v ≠ .boolean r' b) :
    Sound R verbosity s scope (.statement (.branch r p c a))
      (.raises ⟨.badPredicate v.typeName, p.range⟩) s₁ := by
  intro ht hr hs
  obtain ⟨hx, -⟩ := h (Node.fits_part ht .predicate) hr hs
  refine ⟨Converges.bind hx (.of_takes fun _ => ?_), trivial⟩
  cases v with
  | boolean r' b => exact absurd rfl (hn r' b)
  | _ => exact .fail _ s₁

theorem statements {last v : Value} {first : Node} {rest : List Node}
    (hf : Sound R verbosity s scope (.statement first) (.value v) s₁)
    (hrest : Sound R verbosity s₁ scope (.statements v rest) o s₂) :
    Sound R verbosity s scope (.statements last (first :: rest)) o s₂ := by
  intro ht hr hs
  obtain ⟨hx, hret, hs₁, -⟩ := hf.run (ht.2 first (List.mem_cons_self ..)) hr hs
  obtain ⟨hy, ho⟩ := hrest ⟨hret, fun n hn => ht.2 n (List.mem_cons_of_mem _ hn)⟩ hr hs₁
  have hunmarked : v.isReturned = false := hret
  refine ⟨Converges.bind hx ?_, ho⟩
  simp only [hunmarked]
  exact hy

theorem topLevel {last v : Value} {first : Node} {rest : List Node}
    (hf : Sound R verbosity s scope (.statement first) (.value v) s₁)
    (hrest : Sound R verbosity s₁ scope (.topLevel v rest) o s₂) :
    Sound R verbosity s scope (.topLevel last (first :: rest)) o s₂ := by
  intro ht hr hs
  obtain ⟨hx, hret, hs₁, hc⟩ := hf.run (ht.2 first (List.mem_cons_self ..)) hr hs
  obtain ⟨hy, ho⟩ := hrest ⟨hret, fun n hn => ht.2 n (List.mem_cons_of_mem _ hn)⟩ hr hs₁
  have hunmarked : v.isReturned = false := hret
  have htext := Discipline.Completes.text hc hunmarked
  refine ⟨Converges.bind hx ?_, ho⟩
  simp only [hunmarked]
  exact Converges.bind (.of_takes fun _ => .whenVerbose (.recordText htext _ _)) hy

end Sound

/-! ## What is derived is carried out -/

/-- **What the rules derive, the evaluator comes to**, with every limit that is high enough.
A normal completion is no marker. -/
theorem comesTo_of_evaluates (verbosity : Nat) {s s' : Store} {scope : ScopeId} {task : Task}
    {o : Outcome} (h : Evaluates s scope task o s') : Sound R verbosity s scope task o s' := by
  induction h with
  -- Expressions
  | number | boolean | string | function => exact .leaf (fun _ => .done _ _) fun _ _ => rfl
  | @name s scope r name v hv =>
    have hget := Takes.get? scope name s
    rw [hv] at hget
    exact .leaf (fun _ => hget.bind (.done v s)) fun hr hs => isReturned_of_good (hs.get? hr hv)
  | @unbound s scope r name hv =>
    have hget := Takes.get? scope name s
    rw [hv] at hget
    exact .leaf (fun _ => hget.bind (.fail _ s)) fun _ _ => trivial
  | unary _ hw ih => exact ih.unary (takes_unaryResult hw _) (unaryResult_of_means hw).2
  | unaryRefused _ hn ih => exact ih.unary (takes_unaryResult_of_refused hn _) trivial
  | unaryRaises _ ih => exact ih.passed (Node.fits_part · .operand) fun h => .succ h.bind_error
  | binary _ _ hw iha ihb =>
    exact iha.binary ihb (fun h => Converges.bind h (.of_takes fun _ => takes_binaryResult hw _))
      (binaryResult_of_means hw).2
  | binaryRefused _ _ hn iha ihb =>
    exact iha.binary ihb (fun h => Converges.bind h (.of_takes fun _ =>
      takes_binaryResult_of_refused hn _)) trivial
  | leftRaises _ ih => exact ih.passed (Node.fits_part · .left) fun h => .succ h.bind_error
  | rightRaises _ _ iha ihb => exact iha.binary ihb (fun h => h.bind_error) trivial
  | assignment _ ih => exact ih.assignment
  | @badTarget s scope r a b hname =>
    refine .leaf (fun _ => ?_) fun _ _ => trivial
    simp only [expressionWith, hname]
    exact .fail _ s
  | assignedRaises _ ih => exact ih.passed (Node.fits_part · .assigned) fun h => .succ h.bind_error
  -- Calls
  | call _ _ _ ihf iha ihc =>
    refine ihf.called iha fun hr hgood hy hleaves => ?_
    obtain ⟨hz, ho⟩ := ihc ⟨⟨_, hgood⟩, hleaves.2⟩ hr hleaves.1
    exact ⟨Converges.bind hy hz, ho⟩
  | notCallable _ hn ih => exact ih.notCallable hn
  | calleeRaises _ ih => exact ih.passed (Node.fits_part · .callee) fun h => .succ h.bind_error
  | argumentsRaise _ _ ihf iha => exact ihf.called iha fun _ _ hy _ => ⟨hy.bind_error, trivial⟩
  | noArguments => exact fun _ _ _ => ⟨.of_takes fun _ => .done _ _, trivial⟩
  | argument _ _ iha ihr =>
    exact iha.argument ihr (fun h => Converges.bind h (.of_takes fun _ => .done _ _)) trivial
  | argumentRaises _ ih => exact ih.passed (· _ (List.mem_cons_self ..)) fun h => h.bind_error
  | laterRaises _ _ iha ihr => exact iha.argument ihr (fun h => h.bind_error) trivial
  | @arity s scope captured r params body vs hl =>
    refine fun _ _ _ => ⟨.of_takes fun _ => ?_, trivial⟩
    rw [callFunction, if_pos hl]
    exact .fail _ s
  | returned hl hnames _ ih =>
    refine ih.application hl hnames (fun _ h => h.bind (.of_takes fun _ => .done _ _)) fun hc => ?_
    cases hc with
    | value hgood => exact absurd (isReturned_of_good hgood) (by simp [Value.isReturned])
    | returned hgood => exact isReturned_of_good hgood
  | missingReturn hl hnames _ ih =>
    refine ih.application hl hnames (fun hret h => h.bind (.of_takes fun _ => ?_)) fun _ => trivial
    rw [finish_of_unmarked hret]
    exact .fail _ _
  | bodyRaises hl hnames _ ih =>
    exact ih.application hl hnames (fun _ h => h.bind_error) fun _ => trivial
  -- Statements
  | expressionStatement _ ih => exact ih
  | returnStatement _ ih =>
    exact fun ht hr hs => ⟨Converges.bind (ih ht hr hs).1 (.of_takes fun _ => .done _ _), trivial⟩
  | returnRaises _ ih => exact ih.passed id fun h => h.bind_error
  | branchTrue _ _ ihp ihc =>
    exact ihp.branch fun ht hr hs₁ => ihc (Node.fits_part ht .consequence) hr hs₁
  | branchFalse _ habsent _ ihp iha =>
    refine ihp.branch fun ht hr hs₁ => ?_
    simp only [habsent]
    exact iha (Node.fits_part ht (.alternative habsent)) hr hs₁
  | branchNeither _ habsent ihp =>
    refine ihp.branch fun _ _ _ => ?_
    simp only [habsent]
    exact ⟨.of_takes fun _ => .done _ _, rfl⟩
  | badPredicate _ hn ih => exact ih.badPredicate hn
  | predicateRaises _ ih => exact ih.passed (Node.fits_part · .predicate) fun h => h.bind_error
  -- Blocks
  | block _ ih => exact fun ht => ih ⟨rfl, Node.fitAll_iff.mp ht⟩
  | noStatements => exact fun ht _ _ => ⟨.of_takes fun _ => .done _ _, ht.1⟩
  | statement _ _ ihf ihr => exact ihf.statements ihr
  | statementReturns _ ih =>
    refine fun ht hr hs => ?_
    obtain ⟨hx, -⟩ := ih (ht.2 _ (List.mem_cons_self ..)) hr hs
    exact ⟨Converges.bind hx (.of_takes fun _ => .done _ _), trivial⟩
  | statementRaises _ ih => exact ih.passed (·.2 _ (List.mem_cons_self ..)) fun h => h.bind_error
  -- Programs
  | program _ ih => exact fun ht => ih ⟨rfl, Node.fitAll_iff.mp ht⟩
  | topLevelDone => exact fun ht _ _ => ⟨.of_takes fun _ => .done _ _, ht.1⟩
  | topLevelStatement _ _ ihf ihr => exact ihf.topLevel ihr
  | topLevelReturn _ ih =>
    refine fun ht hr hs => ?_
    obtain ⟨hx, -⟩ := ih (ht.2 _ (List.mem_cons_self ..)) hr hs
    exact ⟨Converges.bind hx (.of_takes fun _ => .fail _ _), trivial⟩
  | topLevelRaises _ ih => exact ih.passed (·.2 _ (List.mem_cons_self ..)) fun h => h.bind_error

/-! ## Programs -/

/-- Everything bound in the scopes that can be reached from some scopes is first-class, and the
bodies of functions are shaped. -/
def ShapedFrom (s : Store) (origin : ScopeId → Prop) : Prop :=
  ∀ id, s.Reaches origin id → ∀ name v, (s.bindings id).lookup name = some v → v.isShaped = true

/-- Evaluating what is shaped meets no defect. -/
theorem not_fails_defect (d : Defect) : ¬ shapely.Fails (.defect d) := by
  cases d <;> first | exact not_not_intro trivial | exact not_false

section Programs

variable {verbosity : Nat} {s t : Store} {scope : ScopeId} {tree : Node}

/-- What a program comes to is what its statements do, unless these reach the limit. -/
theorem Takes.program {limit : Nat} {outcome : Except Failure Value}
    (h : Takes (programWith verbosity (expression verbosity limit) scope tree) s outcome t)
    (ho : outcome ≠ .error .exhausted) :
    Takes (program verbosity limit scope tree) s outcome t := by
  intro events
  obtain ⟨events', he⟩ := h events
  refine ⟨events', ?_⟩
  unfold Evaluation.program
  rw [he]
  split
  next hx =>
    cases hx
    exact absurd rfl ho
  next => rfl

theorem converges_program {o : Outcome} (h : Evaluates s scope (.program tree) o t)
    (ho : o.result ≠ .error .exhausted) (hfits : Node.fits .program tree = true)
    (henv : ShapedFrom s (· = scope)) :
    Converges (fun limit => program verbosity limit scope tree) s o.result t := by
  have hr : Region s (· = scope) scope := Or.inl (.here rfl)
  have hs : shapely.Confined (Region s (· = scope)) s := confined_region henv
  have hc : Task.ComesTo verbosity scope s o t (.program tree) :=
    (comesTo_of_evaluates verbosity h hfits hr hs).1
  exact Converges.map hc fun _ ht => ht.program ho

/-- However a program ends: the rules derive it, or the limit was reached. -/
theorem program_outcome (verbosity limit : Nat) (events : List Event)
    (hfits : Node.fits .program tree = true) (henv : ShapedFrom s (· = scope)) :
    let result := program verbosity limit scope tree ⟨s, events⟩
    (∃ v, result.1 = .ok v ∧ Evaluates s scope (.program tree) (.value v) result.2.store) ∨
      (∃ e, result.1 = .error (.error e) ∧
        Evaluates s scope (.program tree) (.raises e) result.2.store) ∨
      result.1 = .error (.error ⟨.callStackExhausted, tree.range⟩) := by
  intro result
  have hr : Region s (· = scope) scope := Or.inl (.here rfl)
  have hs : shapely.Confined (Region s (· = scope)) s := confined_region henv
  have he : Evaluator.Stays shapely (Region s (· = scope)) (expression verbosity limit)
    (expression verbosity limit) := stays_expression_self verbosity limit
  have hrealizes : Realizes (Evaluates s scope (.program tree)) .value
      (programWith verbosity (expression verbosity limit) scope tree) ⟨s, events⟩ :=
    realizes_programWith (realizes_expression verbosity limit) he hr hfits hs
  have hstays : Stays shapely (Region s (· = scope)) _
      (programWith verbosity (expression verbosity limit) scope tree) _ :=
    stays_programWith he hr hfits
  obtain ⟨-, -, hends⟩ := hstays ⟨s, events⟩ hs
  obtain ⟨hok, herror⟩ := hrealizes
  simp only [result, program]
  cases hx : programWith verbosity (expression verbosity limit) scope tree ⟨s, events⟩ with
  | mk outcome m' =>
    rw [hx] at hends hok herror
    cases outcome with
    | ok v => exact Or.inl ⟨v, rfl, hok v rfl⟩
    | error failure =>
      cases failure with
      | error e => exact Or.inr (Or.inl ⟨e, rfl, herror e rfl⟩)
      | exhausted => exact Or.inr (Or.inr rfl)
      | defect d => exact absurd hends (not_fails_defect d)

end Programs

/-- **Evaluating is the natural semantics.**  Take a program tree of the shapes that trees have
by definition, and a scope from which only first-class values with shaped bodies can be
reached.  The rules derive a value and a store exactly when the program comes to them with every
limit that is high enough; and they derive an error and a store exactly when it is an error of
evaluation and the program comes to them.  With any limit at all, a program comes to what the
rules derive or to the error that the limit was reached, at the range of the whole; so if they
derive nothing, the limit is always reached. -/
theorem program_iff_evaluates (verbosity : Nat) (s : Store) (scope : ScopeId) (tree : Node)
    (hfits : Node.fits .program tree = true) (henv : ShapedFrom s (· = scope)) :
    (∀ v t, Evaluates s scope (.program tree) (.value v) t ↔
      Converges (fun limit => program verbosity limit scope tree) s (.ok v) t) ∧
    (∀ e t, Evaluates s scope (.program tree) (.raises e) t ↔ e.cause.family = .evaluation ∧
      Converges (fun limit => program verbosity limit scope tree) s (.error (.error e)) t) ∧
    (∀ limit events, let result := program verbosity limit scope tree ⟨s, events⟩
      (∃ v, result.1 = .ok v ∧ Evaluates s scope (.program tree) (.value v) result.2.store) ∨
        (∃ e, result.1 = .error (.error e) ∧
          Evaluates s scope (.program tree) (.raises e) result.2.store) ∨
        result.1 = .error (.error ⟨.callStackExhausted, tree.range⟩)) ∧
    ((∀ o t, ¬ Evaluates s scope (.program tree) o t) → ∀ limit events,
      (program verbosity limit scope tree ⟨s, events⟩).1 =
        .error (.error ⟨.callStackExhausted, tree.range⟩)) := by
  have houtcome := fun limit events =>
    program_outcome verbosity limit events hfits henv
  refine ⟨fun v t => ⟨fun h => ?_, ?_⟩, fun e t => ⟨fun h => ?_, ?_⟩, houtcome, ?_⟩
  · exact converges_program h nofun hfits henv
  · intro h
    obtain ⟨n, events, hx⟩ : ∃ n events, program verbosity n scope tree ⟨s, []⟩ =
      (.ok v, ⟨t, events⟩) := h.exists_run
    have hn := houtcome n []
    simp only [hx] at hn
    rcases hn with ⟨w, hw, hv⟩ | ⟨e, he, -⟩ | he
    · cases hw
      exact hv
    · cases he
    · cases he
  · exact ⟨h.family_eq, converges_program h nofun hfits henv⟩
  · rintro ⟨hfamily, h⟩
    obtain ⟨n, events, hx⟩ : ∃ n events, program verbosity n scope tree ⟨s, []⟩ =
      (.error (.error e), ⟨t, events⟩) := h.exists_run
    have hn := houtcome n []
    simp only [hx] at hn
    rcases hn with ⟨w, hw, -⟩ | ⟨e', he, hv⟩ | he
    · cases hw
    · cases he
      exact hv
    · cases he
      cases hfamily
  · intro hnone limit events
    rcases houtcome limit events with ⟨v, -, h⟩ | ⟨e, -, h⟩ | he
    · exact absurd h (hnone _ _)
    · exact absurd h (hnone _ _)
    · exact he

/-- A function is bound and called.  The rules derive a value for the whole. -/
theorem program_iff_evaluates_call :
    let here := Range.point Position.origin
    let identity := Node.function here [.identifier here "ㄴ"]
      (.block here [.returnStatement here (.identifier here "ㄴ")])
    let tree := Node.program here
      [.expressionStatement here (.assignment here (.identifier here "ㅎ") identity),
        .expressionStatement here (.call here (.identifier here "ㅎ") [.boolean here true])]
    let s := Store.empty.addRoot.1
    Node.fits .program tree = true ∧ ShapedFrom s (· = 0) ∧
      ∃ v t, Evaluates s 0 (.program tree) (.value v) t ∧
        Converges (fun limit => program 3 limit 0 tree) s (.ok v) t := by
  intro here identity tree s
  have hfits : Node.fits .program tree = true := rfl
  have henv : ShapedFrom s (· = 0) := by
    intro id _ name v hv
    rw [Store.bindings_addRoot_empty] at hv
    cases hv
  obtain ⟨hvalue, -, houtcome, -⟩ := program_iff_evaluates 3 s 0 tree hfits henv
  have hok : (program 3 9 0 tree ⟨s, []⟩).1.isOk = true := by decide +kernel
  rcases houtcome 9 [] with ⟨v, -, h⟩ | ⟨e, he, -⟩ | he
  · exact ⟨hfits, henv, v, _, h, (hvalue v _).mp h⟩
  · rw [he] at hok
    cases hok
  · rw [he] at hok
    cases hok

end Evaluation
end HangulScript
