import HangulScript.Proofs.Evaluation.Discipline
import HangulScript.Proofs.Evaluation.Rules

/-!
# What is evaluated is derived

The evaluator hands markers through statements and blocks as results; the rules let a return
complete them abruptly.  The evaluator has a limit and records events; the rules have neither.
On shaped trees, whatever value or error the evaluator comes to, the rules derive it, with the
store that is left.

The proof goes the way the evaluator goes: by recursion on the limit, and on the tree for
statements.  At every step a marker must not be taken for a value.  The discipline of shaped
trees sees to that: no expression has a marker for its value.

The other direction is `HangulScript.Proofs.Evaluation.Adequacy`.
-/

namespace HangulScript

/-- Whether a value is first-class, and its body shaped if it is a function. -/
def Value.isShaped : Value → Bool
  | .number .. | .boolean .. | .string .. => true
  | .function _ params body _ => Node.fitAll .parameter params && Node.fits .block body
  | _ => false

namespace Evaluation

open Node (Role)

/-- The trees that fit, and the first-class values whose functions do. -/
def shapely : Discipline where
  allows role n := Node.fits role n = true
  admits v := v.isShaped = true
  vacates _ := True
  shaped := True
  part := Node.fits_part
  serves _ := Node.serves_of_fits
  firstClass {v} h := by cases v <;> first | rfl | cases h
  number _ := rfl
  boolean _ := rfl
  string _ := rfl
  sign _ _ := rfl
  negation _ := rfl
  arithmetic _ _ := rfl
  comparison _ _ := rfl
  function h := h
  parameters h p hp := by
    simp only [Value.isShaped, Bool.and_eq_true] at h
    exact Node.fitAll_iff.mp h.1 p hp
  body h := by
    simp only [Value.isShaped, Bool.and_eq_true] at h
    exact h.2
  emptyBranch _ := trivial
  emptyBlock _ := trivial
  emptyProgram _ := trivial

/-! ## Runs without their events -/

/-- A run takes a store to an outcome and a store, whatever was recorded before. -/
def Takes {α : Type} (x : Run α) (s : Store) (outcome : Except Failure α) (s' : Store) : Prop :=
  ∀ events, ∃ events', x ⟨s, events⟩ = (outcome, ⟨s', events'⟩)

namespace Takes

variable {α β : Type} {x : Run α} {s s' s'' : Store}

theorem done (a : α) (s : Store) : Takes (pure a) s (.ok a) s := fun events => ⟨events, rfl⟩

theorem fail (failure : Failure) (s : Store) :
    Takes (Run.fail failure : Run α) s (.error failure) s := fun events => ⟨events, rfl⟩

theorem bind {a : α} {f : α → Run β} {outcome : Except Failure β} (h : Takes x s (.ok a) s')
    (hf : Takes (f a) s' outcome s'') : Takes (x >>= f) s outcome s'' := by
  intro events
  obtain ⟨events', he⟩ := h events
  rw [Run.bind_apply, he]
  exact hf events'

theorem bind_error {failure : Failure} {f : α → Run β} (h : Takes x s (.error failure) s') :
    Takes (x >>= f) s (.error failure) s' := by
  intro events
  obtain ⟨events', he⟩ := h events
  rw [Run.bind_apply, he]
  exact ⟨events', rfl⟩

theorem record (e : Event) (s : Store) : Takes (Run.record e) s (.ok ()) s := fun events =>
  ⟨e :: events, rfl⟩

theorem whenVerbose {verbosity needed : Nat} {action : Run Unit} (h : Takes action s (.ok ()) s) :
    Takes (Run.whenVerbose verbosity needed action) s (.ok ()) s := by
  unfold Run.whenVerbose
  split
  · exact h
  · exact done () s

theorem recordText {v : Value} (h : ∃ text, v.text? = some text) (event : String → Event)
    (s : Store) : Takes (Run.textOf v >>= fun text => Run.record (event text)) s (.ok ()) s := by
  obtain ⟨text, ht⟩ := h
  have htext : Takes (Run.textOf v) s (.ok text) s := by
    rw [Run.textOf, ht]
    exact done text s
  exact htext.bind (record _ s)

theorem get? (scope : ScopeId) (name : String) (s : Store) :
    Takes (Run.get? scope name) s (.ok (s.get? scope name)) s := fun events => ⟨events, rfl⟩

theorem addChild (parent : ScopeId) (s : Store) :
    Takes (Run.addChild parent) s (.ok (s.addChild parent).2) (s.addChild parent).1 :=
  fun events => ⟨events, rfl⟩

/-- A call is recorded if the parameters of the function are names. -/
theorem recordCall {params : List Node} {names : List String}
    (hn : Value.paramNames? params = some names) (count : Nat) (range : Range) (s : Store) :
    Takes (Run.orDefect .noName (Value.paramNames? params) >>= fun names =>
      Run.record (.call (Value.signature names) count range)) s (.ok ()) s := by
  rw [hn]
  exact (done names s).bind (record _ s)

variable {verbosity : Nat}

theorem bindName (scope : ScopeId) (name : String) {v : Value} (hv : v.isFirstClass = true)
    (s : Store) : Takes (bindName verbosity scope name v) s (.ok ()) (s.bind scope name v) := by
  have hb : Takes (Run.bindIn scope name v) s (.ok ()) (s.bind scope name v) := fun events =>
    ⟨events, rfl⟩
  exact hb.bind (whenVerbose (recordText (Value.exists_text_of_isFirstClass hv) _ _))

/-- Parameters that are all names are bound one after the other. -/
theorem bindParams (scope : ScopeId) {params : List Node} {names : List String}
    (hn : Value.paramNames? params = some names) {values : List Value}
    (hv : ∀ v ∈ values, v.isFirstClass = true) (s : Store) :
    Takes (bindParams verbosity scope params values) s (.ok ())
      (s.bindAll scope (names.zip values)) := by
  induction params generalizing names values s with
  | nil =>
    cases hn
    exact done () s
  | cons param params ih =>
    rw [Value.paramNames?, List.mapM_cons] at hn
    cases hname : param.name? with
    | none =>
      rw [hname] at hn
      cases hn
    | some name =>
      cases hrest : params.mapM Node.name? with
      | none =>
        rw [hname, hrest] at hn
        cases hn
      | some rest =>
        rw [hname, hrest] at hn
        cases hn
        cases values with
        | nil => exact done () s
        | cons value values =>
          have horDefect : Takes (Run.orDefect .noName param.name?) s (.ok name) s := by
            rw [hname]
            exact done name s
          refine horDefect.bind ((bindName scope name (hv value (List.mem_cons_self ..)) s).bind ?_)
          exact ih hrest (fun v hm => hv v (List.mem_cons_of_mem _ hm)) _

end Takes

/-! ## From the evaluator to the rules -/

/-- The outcome that the result of a statement is. -/
def completion : Value → Outcome
  | .returned v => .returns v
  | v => .value v

theorem completion_eq {v : Value} (h : v.isReturned = false) : completion v = .value v := by
  cases v <;> first | rfl | cases h

variable {R : ScopeId → Prop}

theorem Discipline.Confined.bindAll {D : Discipline} {s : Store} (h : D.Confined R s)
    (scope : ScopeId) (pairs : List (String × Value)) (hp : ∀ p ∈ pairs, D.Good R p.2) :
    D.Confined R (s.bindAll scope pairs) := by
  induction pairs generalizing s with
  | nil => exact h
  | cons p pairs ih =>
    have hbind := h.bind scope p.1 (hp p (List.mem_cons_self ..))
    exact ih hbind fun q hq => hp q (List.mem_cons_of_mem _ hq)

/-- What the body of a call is evaluated in is confined. -/
theorem confined_of_application {r : Range} {params : List Node} {body : Node} {captured : ScopeId}
    {values : List Value} {s : Store} (hf : shapely.Good R (.function r params body captured))
    (hv : ∀ v ∈ values, shapely.Good R v) (hs : shapely.Confined R s) (names : List String) :
    shapely.Confined R
        ((s.addChild captured).1.bindAll (s.addChild captured).2 (names.zip values)) ∧
      R (s.addChild captured).2 := by
  obtain ⟨hc, hid⟩ := hs.addChild (hf.2 captured rfl)
  exact ⟨hc.bindAll _ _ fun p hp => hv p.2 (List.of_mem_zip hp).2, hid⟩

/-- The parameters of a shaped function are names. -/
theorem exists_names_of_good {r : Range} {params : List Node} {body : Node} {captured : ScopeId}
    (h : shapely.Good R (.function r params body captured)) :
    ∃ names, Value.paramNames? params = some names := by
  cases hn : Value.paramNames? params with
  | some names => exact ⟨names, rfl⟩
  | none =>
    obtain ⟨p, hp, hname⟩ := Value.exists_of_paramNames?_eq_none hn
    exact absurd trivial (shapely.not_shaped_of_name (shapely.parameters h.1 p hp) hname)

theorem isReturned_of_good {v : Value} (h : shapely.Good R v) : v.isReturned = false :=
  Value.isReturned_of_isFirstClass h.isFirstClass

/-- What is said of outcomes and stores is true of how a run ends: of its result, told as an
outcome, and of its error.  Exhaustion and defects are passed over. -/
def Realizes {α : Type} (means : Outcome → Store → Prop) (tell : α → Outcome) (x : Run α)
    (m : Machine) : Prop :=
  (∀ a, (x m).1 = .ok a → means (tell a) (x m).2.store) ∧
    ∀ e, (x m).1 = .error (.error e) → means (.raises e) (x m).2.store

namespace Realizes

variable {α β : Type} {means means' : Outcome → Store → Prop} {tell : α → Outcome}
  {tell' : β → Outcome} {x : Run α} {m : Machine} {good : α → Prop}

theorem done {a : α} (h : means (tell a) m.store) : Realizes means tell (pure a) m := by
  refine ⟨?_, ?_⟩
  · rintro b hb
    cases hb
    exact h
  · rintro e he
    cases he

theorem error {cause : Cause} {range : Range} (h : means (.raises ⟨cause, range⟩) m.store) :
    Realizes means tell (Run.error cause range) m := by
  refine ⟨?_, ?_⟩
  · rintro b hb
    cases hb
  · rintro e he
    cases he
    exact h

theorem bind {f : α → Run β} (h : Realizes means tell x m) (hm : shapely.Confined R m.store)
    (hs : Stays shapely R good x x) (hraise : ∀ e s', means (.raises e) s' → means' (.raises e) s')
    (hf : ∀ a m', means (tell a) m'.store → good a → shapely.Confined R m'.store →
      Realizes means' tell' (f a) m') : Realizes means' tell' (x >>= f) m := by
  obtain ⟨hok, herror⟩ := h
  obtain ⟨-, hstore, hends⟩ := hs m hm
  unfold Realizes
  rw [Run.bind_apply]
  cases hx : x m with
  | mk outcome m' =>
    rw [hx] at hok herror hstore hends
    cases outcome with
    | ok a => exact hf a m' (hok a rfl) hends hstore
    | error failure =>
      refine ⟨fun b hb => (nomatch hb), fun e he => ?_⟩
      cases he
      exact hraise e _ (herror e rfl)

/-- A step that succeeds in any case. -/
theorem step {f : α → Run β} {a : α} {s' : Store} (h : Takes x m.store (.ok a) s')
    (hf : ∀ events, Realizes means' tell' (f a) ⟨s', events⟩) :
    Realizes means' tell' (x >>= f) m := by
  obtain ⟨events', he⟩ := h m.events
  unfold Realizes
  rw [Run.bind_apply, show x m = _ from he]
  exact hf events'

theorem mono (h : Realizes means tell x m) (hmeans : ∀ o s', means o s' → means' o s') :
    Realizes means' tell x m :=
  ⟨fun a ha => hmeans _ _ (h.1 a ha), fun e he => hmeans _ _ (h.2 e he)⟩

end Realizes

/-- An evaluator that gives what the rules do. -/
def Evaluator.Realizes (R : ScopeId → Prop) (eval : Evaluator) : Prop :=
  ∀ node scope m, Node.fits .expression node = true → R scope → shapely.Confined R m.store →
    Evaluation.Realizes (Evaluates m.store scope (.expression node)) .value (eval node scope) m

section Rules

variable {verbosity : Nat} {eval : Evaluator} {scope : ScopeId}

mutual

theorem realizes_statement (he : eval.Realizes R) (hstays : eval.Stays shapely R eval)
    (hs : R scope) : ∀ (node : Node) (m : Machine), Node.fits .statement node = true →
      shapely.Confined R m.store →
        Realizes (Evaluates m.store scope (.statement node)) completion
          (statement verbosity eval scope node) m
  | .expressionStatement _ expression, m, h, hm => by
    have hx := he expression scope m h hs hm
    have hsx := hstays expression scope h hs
    refine ⟨fun v hv => ?_, fun e hv => .expressionStatement (hx.2 e hv)⟩
    have hgood : shapely.Good R v := by
      have := (hsx m hm).2.2
      rw [show (eval expression scope m).1 = _ from hv] at this
      exact this
    rw [completion_eq (isReturned_of_good hgood)]
    exact .expressionStatement (hx.1 v hv)
  | .returnStatement _ expression, m, h, hm => by
    refine (he expression scope m h hs hm).bind hm (hstays expression scope h hs)
      (fun e s' => .returnRaises) fun v m' hv _ _ => ?_
    exact .done (.returnStatement hv)
  | .branch range predicate consequence alternative, m, h, hm => by
    have hp : Node.fits .expression predicate = true := Node.fits_part h .predicate
    have hc := fun m' => realizes_block he hstays hs consequence m' (Node.fits_part h .consequence)
    have ha := fun m' habsent =>
      realizes_block he hstays hs alternative m' (Node.fits_part h (.alternative habsent))
    refine (he predicate scope m hp hs hm).bind hm (hstays predicate scope hp hs)
      (fun e s' => .predicateRaises) fun v m' hv hgood hm' => ?_
    cases v with
    | boolean r decision =>
      refine .step (.whenVerbose (.record _ m'.store)) fun events => ?_
      cases decision with
      | true => exact (hc ⟨m'.store, events⟩ hm').mono fun o s' hb => .branchTrue hv hb
      | false =>
        by_cases habsent : alternative.isAbsent = true
        · simp only [habsent]
          exact .done (.branchNeither hv habsent)
        · have hf := Bool.eq_false_iff.mpr habsent
          simp only [hf]
          exact (ha ⟨m'.store, events⟩ hf hm').mono fun o s' hb => .branchFalse hv hf hb
    | _ => exact .error (.badPredicate hv (by simp))
  | .absent, _, h, _ | .program .., _, h, _ | .block .., _, h, _ | .number .., _, h, _
  | .boolean .., _, h, _ | .string .., _, h, _ | .identifier .., _, h, _ | .unary .., _, h, _
  | .binary .., _, h, _ | .assignment .., _, h, _ | .function .., _, h, _ | .call .., _, h, _ =>
    absurd (Node.serves_of_fits h) Bool.false_ne_true

theorem realizes_block (he : eval.Realizes R) (hstays : eval.Stays shapely R eval)
    (hs : R scope) : ∀ (node : Node) (m : Machine), Node.fits .block node = true →
      shapely.Confined R m.store →
        Realizes (Evaluates m.store scope (.block node)) completion
          (block verbosity eval scope node) m
  | .block range inner, m, h, hm =>
    (realizes_statements he hstays hs (.empty range) rfl inner m (Node.fitAll_iff.mp h) hm).mono
      fun _ _ => .block
  | .absent, _, h, _ | .program .., _, h, _ | .expressionStatement .., _, h, _
  | .returnStatement .., _, h, _ | .branch .., _, h, _ | .number .., _, h, _
  | .boolean .., _, h, _ | .string .., _, h, _ | .identifier .., _, h, _ | .unary .., _, h, _
  | .binary .., _, h, _ | .assignment .., _, h, _ | .function .., _, h, _ | .call .., _, h, _ => by
    cases h

theorem realizes_statements (he : eval.Realizes R) (hstays : eval.Stays shapely R eval)
    (hs : R scope) (last : Value) (hl : last.isReturned = false) :
    ∀ (nodes : List Node) (m : Machine), (∀ n ∈ nodes, Node.fits .statement n = true) →
      shapely.Confined R m.store →
        Realizes (Evaluates m.store scope (.statements last nodes)) completion
          (statements verbosity eval scope last nodes) m
  | [], m, _, _ => .done (by rw [completion_eq hl]; exact .noStatements)
  | first :: rest, m, h, hm => by
    have hfirst := h first (List.mem_cons_self ..)
    have hr := fun value hv m' => realizes_statements he hstays hs value hv rest m'
      fun n hn => h n (List.mem_cons_of_mem _ hn)
    refine (realizes_statement he hstays hs first m hfirst hm).bind hm
      (stays_statement hstays hs first hfirst) (fun e s' => .statementRaises)
      fun value m' hv _ hm' => ?_
    cases hret : value.isReturned with
    | false =>
      simp only [Bool.false_eq_true, if_false]
      rw [completion_eq hret] at hv
      exact (hr value hret m' hm').mono fun o s' => .statement hv
    | true =>
      cases value <;> cases hret
      simp only [if_true]
      exact .done (.statementReturns hv)

end

variable (he : eval.Realizes R) (hstays : eval.Stays shapely R eval)

include he hstays

theorem realizes_callFunction {r range : Range} {params : List Node} {body : Node}
    {captured : ScopeId} {values : List Value}
    (hf : shapely.Good R (.function r params body captured)) (hv : ∀ v ∈ values, shapely.Good R v)
    (caller : ScopeId) {m : Machine} (hm : shapely.Confined R m.store) :
    Realizes (Evaluates m.store caller (.application params body captured values range)) .value
      (callFunction verbosity eval params body captured values range) m := by
  unfold callFunction
  by_cases hlength : values.length ≠ params.length
  · rw [if_pos hlength]
    exact .error (.arity hlength)
  · rw [if_neg hlength]
    have hl := Decidable.not_not.mp hlength
    obtain ⟨names, hnames⟩ := exists_names_of_good hf
    refine .step (.whenVerbose (.recordCall hnames _ _ _)) fun _ => ?_
    refine .step (.addChild captured m.store) fun _ => ?_
    refine .step (.bindParams _ hnames (fun v hm => (hv v hm).isFirstClass) _) fun events => ?_
    obtain ⟨hbound, hid⟩ := confined_of_application hf hv hm names
    have hbody : Node.fits .block body = true := shapely.body hf.1
    refine (realizes_block he hstays hid body ⟨_, events⟩ hbody hbound).bind hbound
      (stays_block hstays hid body hbody) (fun e s' => .bodyRaises hl hnames) fun v m' hv' _ _ => ?_
    cases v with
    | returned v => exact .done (.returned hl hnames hv')
    | _ => exact .error (.missingReturn hl hnames hv')

theorem realizes_arguments (hs : R scope) {args : List Node} {m : Machine}
    (h : ∀ a ∈ args, Node.fits .expression a = true) (hm : shapely.Confined R m.store) :
    Realizes (Evaluates m.store scope (.arguments args)) .values (arguments eval scope args) m := by
  induction args generalizing m with
  | nil => exact .done .noArguments
  | cons first rest ih =>
    have hfirst := h first (List.mem_cons_self ..)
    have hrest := fun a ha => h a (List.mem_cons_of_mem first ha)
    refine (he first scope m hfirst hs hm).bind hm (hstays first scope hfirst hs)
      (fun e s' => .argumentRaises) fun v m' hv _ hm' => ?_
    refine (ih hrest hm').bind hm' (stays_arguments hstays hs hrest)
      (fun e s' => .laterRaises hv) fun vs m'' hvs _ _ => ?_
    exact .done (.argument hv hvs)

theorem realizes_expressionWith : Evaluator.Realizes R (expressionWith verbosity eval) := by
  intro node scope m h hs hm
  cases node with
  | number => exact .done .number
  | boolean => exact .done .boolean
  | string => exact .done .string
  | function => exact .done .function
  | identifier range name =>
    refine .step (.get? scope name m.store) fun events => ?_
    cases hv : m.store.get? scope name with
    | none => exact .error (.unbound hv)
    | some v => exact .done (.name hv)
  | unary range op operand =>
    have ho : Node.fits .expression operand = true := Node.fits_part h .operand
    refine (he operand scope m ho hs hm).bind hm (hstays operand scope ho hs)
      (fun e s' => .unaryRaises) fun v m' hv _ _ => ?_
    rcases unaryResult_eq range op v with ⟨w, hw, heq⟩ | ⟨hn, heq⟩
    · rw [heq]
      exact .done (.unary hv hw)
    · rw [heq]
      exact .error (.unaryRefused hv hn)
  | binary range op left right =>
    have hl : Node.fits .expression left = true := Node.fits_part h .left
    have hr : Node.fits .expression right = true := Node.fits_part h .right
    refine (he left scope m hl hs hm).bind hm (hstays left scope hl hs)
      (fun e s' => .leftRaises) fun v m' hv _ hm' => ?_
    refine (he right scope m' hr hs hm').bind hm' (hstays right scope hr hs)
      (fun e s' => .rightRaises hv) fun v' m'' hv' _ _ => ?_
    rcases binaryResult_eq range op v v' with ⟨w, hw, heq⟩ | ⟨hn, heq⟩
    · rw [heq]
      exact .done (.binary hv hv' hw)
    · rw [heq]
      exact .error (.binaryRefused hv hv' hn)
  | assignment range left right =>
    simp only [expressionWith]
    cases hname : left.name? with
    | none => exact .error (.badTarget hname)
    | some name =>
      cases left <;> cases hname
      have hr : Node.fits .expression right = true := Node.fits_part h .assigned
      refine (he right scope m hr hs hm).bind hm (hstays right scope hr hs)
        (fun e s' => .assignedRaises) fun v m' hv hgood _ => ?_
      exact .step (.bindName scope name hgood.isFirstClass m'.store) fun _ => .done (.assignment hv)
  | call range callee args =>
    have hf : Node.fits .expression callee = true := Node.fits_part h .callee
    have ha : ∀ a ∈ args, Node.fits .expression a = true := fun a ha =>
      Node.fits_part h (.argument ha)
    refine (he callee scope m hf hs hm).bind hm (hstays callee scope hf hs)
      (fun e s' => .calleeRaises) fun v m' hv hgood hm' => ?_
    cases v with
    | function r params body captured =>
      refine (realizes_arguments he hstays hs ha hm').bind hm' (stays_arguments hstays hs ha)
        (fun e s' => .argumentsRaise hv) fun vs m'' hvs hgoods hm'' => ?_
      exact (realizes_callFunction he hstays hgood hgoods scope hm'').mono fun o s' =>
        .call hv hvs
    | _ => exact .error (.notCallable hv (by simp))
  | _ => exact absurd (Node.serves_of_fits h) Bool.false_ne_true

theorem realizes_topLevel (hs : R scope) {last : Value} (hl : last.isReturned = false)
    {nodes : List Node} {m : Machine} (h : ∀ n ∈ nodes, Node.fits .statement n = true)
    (hm : shapely.Confined R m.store) :
    Realizes (Evaluates m.store scope (.topLevel last nodes)) .value
      (topLevel verbosity eval scope last nodes) m := by
  induction nodes generalizing last m with
  | nil => exact .done .topLevelDone
  | cons first rest ih =>
    have hfirst := h first (List.mem_cons_self ..)
    refine (realizes_statement he hstays hs first m hfirst hm).bind hm
      (stays_statement hstays hs first hfirst) (fun e s' => .topLevelRaises)
      fun value m' hv hgood hm' => ?_
    cases hret : value.isReturned with
    | false =>
      simp only [Bool.false_eq_true, if_false]
      rw [completion_eq hret] at hv
      refine .step (.whenVerbose (.recordText (hgood.1.text hret) _ _)) fun events => ?_
      have hr : ∀ n ∈ rest, Node.fits .statement n = true := fun n hn =>
        h n (List.mem_cons_of_mem _ hn)
      exact (ih (m := ⟨m'.store, events⟩) hret hr hm').mono fun o s' => .topLevelStatement hv
    | true =>
      cases value <;> cases hret
      simp only [if_true]
      exact .error (.topLevelReturn hv)

theorem realizes_programWith (hs : R scope) {node : Node} {m : Machine}
    (h : Node.fits .program node = true) (hm : shapely.Confined R m.store) :
    Realizes (Evaluates m.store scope (.program node)) .value
      (programWith verbosity eval scope node) m := by
  cases node with
  | program range inner =>
    refine (realizes_topLevel he hstays hs rfl (Node.fitAll_iff.mp h) hm).mono fun o s' => ?_
    exact .program
  | _ => cases h

end Rules

/-- **What the evaluator comes to, the rules derive**, with whatever limit. -/
theorem realizes_expression (verbosity limit : Nat) :
    Evaluator.Realizes R (expression verbosity limit) := by
  induction limit with
  | zero =>
    intro node scope m _ _ _
    exact ⟨fun v hv => (nomatch hv), fun e he => (nomatch he)⟩
  | succ limit ih => exact realizes_expressionWith ih (stays_expression_self verbosity limit)

end Evaluation
end HangulScript
