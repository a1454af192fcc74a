import HangulScript.Proofs.Evaluation.Comparison
import HangulScript.Proofs.Evaluation.Correspondence

/-!
# Machines side by side

Two scripts that take their steps in pairs are carried out on two machines.  If the stores of
the machines are like each other, then every question is answered alike, every step leaves the
stores alike, and the two come to the same end: they fail alike, or give results that are
related (`Like.relates`).  Of the events that the first records, the second records those that
its verbosity asks for, in the same order.

Names have to be related one to one for this, since a name that is asked for must be found in
the one store where it is found in the other, and a name that is bound must take the place of
the same one.

It is left out here that the first is cut short; that is for its journal to tell
(`HangulScript.Proofs.Evaluation.Exhaustion`).
-/

namespace HangulScript

/-- Related names are equal together. -/
def Comparison.OneToOne (c : Comparison) : Prop :=
  ∀ {a a' b b' : String}, c.name a a' → c.name b b' → (a = b ↔ a' = b')

variable {c : Comparison}

/-! ## Stores -/

/-- The same number of names, in the same order, bound to values that are like each other. -/
def Bindings.Like (c : Comparison) : Bindings → Bindings → Prop :=
  List.Forall₂ fun b b' => c.name b.1 b'.1 ∧ b.2.Like c b'.2

namespace Bindings.Like

variable {b b' : Bindings} {n n' : String}

theorem lookup (ho : c.OneToOne) (h : b.Like c b') (hn : c.name n n') :
    Option.Rel (Value.Like c) (List.lookup n b) (List.lookup n' b') := by
  induction h with
  | nil => exact .none
  | @cons x x' rest rest' hx _ ih =>
    obtain ⟨m, v⟩ := x
    obtain ⟨m', v'⟩ := x'
    have hiff := ho hn hx.1
    simp only [List.lookup_cons]
    by_cases hm : n = m
    · rw [beq_iff_eq.mpr hm, beq_iff_eq.mpr (hiff.mp hm)]
      exact .some hx.2
    · rw [beq_eq_false_iff_ne.mpr hm, beq_eq_false_iff_ne.mpr fun he => hm (hiff.mpr he)]
      exact ih

theorem bind (ho : c.OneToOne) (h : b.Like c b') (hn : c.name n n') {v v' : Value}
    (hv : v.Like c v') : (b.bind n v).Like c (b'.bind n' v') := by
  induction h with
  | nil => exact .cons ⟨hn, hv⟩ .nil
  | @cons x x' rest rest' hx hrest ih =>
    have hiff := ho hx.1 hn
    simp only [Bindings.bind]
    by_cases hm : x.1 = n
    · rw [if_pos hm, if_pos (hiff.mp hm)]
      exact .cons ⟨hn, hv⟩ hrest
    · rw [if_neg hm, if_neg fun he => hm (hiff.mpr he)]
      exact .cons hx ih

end Bindings.Like

/-- The same scopes inside one another, with bindings that are like each other. -/
structure Store.Like (c : Comparison) (s s' : Store) : Prop where
  size : s.scopes.size = s'.scopes.size
  parent : ∀ id, s.parent? id = s'.parent? id
  bindings : ∀ id, (s.bindings id).Like c (s'.bindings id)

namespace Store.Like

variable {s s' : Store} {n n' : String}

/-- **Looking a name up** finds values that are like each other, or nothing on both sides. -/
theorem get? (ho : c.OneToOne) (h : s.Like c s') (hn : c.name n n') (id : ScopeId) :
    Option.Rel (Value.Like c) (s.get? id n) (s'.get? id n') := by
  induction id using Nat.strongRecOn with
  | _ id ih =>
    rw [Store.get?_eq, Store.get?_eq, ← h.parent id]
    refine ((h.bindings id).lookup ho hn).or ?_
    cases hp : s.parent? id with
    | none => exact .none
    | some p => exact ih p (Store.parent?_lt hp)

theorem bind (ho : c.OneToOne) (h : s.Like c s') (hn : c.name n n') (id : ScopeId) {v v' : Value}
    (hv : v.Like c v') : (s.bind id n v).Like c (s'.bind id n' v') := by
  refine ⟨?_, ?_, ?_⟩
  · rw [Store.size_bind, Store.size_bind, h.size]
  · intro other
    rw [Store.parent?_bind, Store.parent?_bind, h.parent]
  · intro other
    by_cases hid : id = other
    · subst hid
      by_cases hs : id < s.scopes.size
      · rw [Store.bindings_bind_self s hs, Store.bindings_bind_self s' (h.size ▸ hs)]
        exact (h.bindings id).bind ho hn hv
      · have hs' : s.scopes.size ≤ id := Nat.le_of_not_lt hs
        rw [Store.bindings_of_le (by rwa [Store.size_bind]),
          Store.bindings_of_le (by rwa [Store.size_bind, ← h.size])]
        exact .nil
    · rw [Store.bindings_bind_of_ne s hid, Store.bindings_bind_of_ne s' hid]
      exact h.bindings other

theorem addChild (h : s.Like c s') (parent : ScopeId) :
    (s.addChild parent).1.Like c (s'.addChild parent).1 := by
  refine ⟨?_, ?_, ?_⟩
  · rw [Store.size_addChild, Store.size_addChild, h.size]
  · intro id
    rw [Store.parent?_addChild, Store.parent?_addChild, h.size, h.parent]
  · intro id
    rw [Store.bindings_addChild, Store.bindings_addChild]
    exact h.bindings id

end Store.Like

/-! ## Carrying two scripts out -/

/-- Outcomes of one sort: results that are related, or failures that are like each other. -/
inductive OutcomeLike (c : Comparison) {α β : Type} (R : α → β → Prop) :
    Except Failure α → Except Failure β → Prop
  | ok {a : α} {b : β} : R a b → OutcomeLike c R (.ok a) (.ok b)
  | error {failure failure' : Failure} : failure.Like c failure' →
      OutcomeLike c R (.error failure) (.error failure')

/-- The events that one run recorded, and what another one heard of them. -/
structure Heard (c : Comparison) (new new' : List Event) : Prop where
  level_le : ∀ e ∈ new, e.level ≤ c.loud
  like : List.Forall₂ (Event.Like c) (new.filter fun e => e.level ≤ c.quiet) new'

/-- How two runs end that began on two machines. -/
structure Relates (c : Comparison) {α β : Type} (R : α → β → Prop) (m m' : Machine)
    (r : Except Failure α × Machine) (r' : Except Failure β × Machine) : Prop where
  outcome : OutcomeLike c R r.1 r'.1
  /-- The stores are like each other, or else the second has got one more scope, after a call of
  a function with a parameter that is no name. -/
  stores : ∃ s, r.2.store.Like c s ∧
    (s = r'.2.store ∨ (¬ c.named ∧ c.quiet = 0 ∧ c.loud ≠ 0) ∧ r.1 = .error (.defect .noName) ∧
      s.WritesAtMost none r'.2.store)
  events : ∃ new new', r.2.events = new ++ m.events ∧ r'.2.events = new' ++ m'.events ∧
    Heard c new new'

namespace Heard

variable {e e' : Event} {new new' : List Event}

theorem nil : Heard c [] [] := by
  refine ⟨fun e he => ?_, .nil⟩
  cases he

theorem level_le_concat (h : Heard c new new') (hl : e.level ≤ c.loud) :
    ∀ x ∈ new ++ [e], x.level ≤ c.loud := by
  intro x hx
  rcases List.mem_append.mp hx with hx | hx
  · exact h.level_le x hx
  · rw [List.mem_singleton.mp hx]
    exact hl

/-- An event that both have recorded before. -/
theorem both (h : Heard c new new') (hq : e.level ≤ c.quiet) (he : e.Like c e') :
    Heard c (new ++ [e]) (new' ++ [e']) := by
  refine ⟨h.level_le_concat (Nat.le_trans hq c.quiet_le), ?_⟩
  rw [List.filter_append, List.filter_singleton, decide_eq_true hq]
  exact List.rel_append h.like (.cons he .nil)

/-- An event that only the first has recorded before. -/
theorem alone (h : Heard c new new') (hq : c.quiet < e.level) (hl : e.level ≤ c.loud) :
    Heard c (new ++ [e]) new' := by
  refine ⟨h.level_le_concat hl, ?_⟩
  rw [List.filter_append, List.filter_singleton, decide_eq_false (Nat.not_le_of_lt hq)]
  simpa using h.like

end Heard

/-- A script that fills a scope writes nothing else, and fails. -/
theorem Script.Fills.run {α : Type} {own : ScopeId} {s : Script α} (h : s.Fills own)
    (m : Machine) :
    (s.run m).1 = .error (.defect .noName) ∧ (s.run m).2.events = m.events ∧
      m.store.WritesAtMost (some own) (s.run m).2.store := by
  induction h generalizing m with
  | fail => exact ⟨rfl, rfl, .refl _ _⟩
  | @bindIn name value next _ ih =>
    obtain ⟨houtcome, hevents, hstore⟩ := ih { m with store := m.store.bind own name value }
    exact ⟨houtcome, hevents, (Store.WritesAtMost.bind m.store own name value).trans hstore⟩

open Script in
/-- **Side by side.**  Two scripts that take their steps in pairs, carried out on machines whose
stores are like each other, come to the same end: the same outcome, stores that are like each
other, and the same events as far as the second is told to record them. -/
theorem Script.Like.relates (ho : c.OneToOne) (hc : ¬ c.cut) {α β : Type} {R : α → β → Prop}
    {s : Script α} {s' : Script β} (h : s.Like c R s') (m m' : Machine)
    (hm : m.store.Like c m'.store) : Relates c R m m' (s.run m) (s'.run m') := by
  induction h generalizing m m' with
  | done hr => exact ⟨.ok hr, ⟨_, hm, Or.inl rfl⟩, [], [], rfl, rfl, .nil⟩
  | fail h => exact ⟨.error h, ⟨_, hm, Or.inl rfl⟩, [], [], rfl, rfl, .nil⟩
  | get? hn _ ih =>
    rw [run_get?_apply, run_get?_apply]
    exact ih _ _ (hm.get? ho hn _) m m' hm
  | @bindIn scope n n' v v' next next' hn hv _ ih =>
    rw [run_bindIn_apply, run_bindIn_apply]
    have hm' : (m.store.bind scope n v).Like c (m'.store.bind scope n' v') :=
      hm.bind ho hn scope hv
    obtain ⟨houtcome, hstores, hevents⟩ := ih ⟨_, m.events⟩ ⟨_, m'.events⟩ hm'
    exact ⟨houtcome, hstores, hevents⟩
  | @addChild parent next next' _ ih =>
    rw [run_addChild_apply, run_addChild_apply, ← hm.size]
    have hm' : (m.store.addChild parent).1.Like c (m'.store.addChild parent).1 :=
      hm.addChild parent
    obtain ⟨houtcome, hstores, hevents⟩ :=
      ih m.store.scopes.size ⟨_, m.events⟩ ⟨_, m'.events⟩ hm'
    exact ⟨houtcome, hstores, hevents⟩
  | @record e e' next next' hq he _ ih =>
    rw [run_record_apply, run_record_apply]
    obtain ⟨houtcome, hstores, new, new', hnew, hnew', hheard⟩ := ih
      ⟨m.store, e :: m.events⟩ ⟨m'.store, e' :: m'.events⟩ hm
    refine ⟨houtcome, hstores, new ++ [e], new' ++ [e'], ?_, ?_, hheard.both hq he⟩
    · simpa using hnew
    · simpa using hnew'
  | @unheard e next s' hq hl _ ih =>
    rw [run_record_apply]
    obtain ⟨houtcome, hstores, new, new', hnew, hnew', hheard⟩ := ih
      ⟨m.store, e :: m.events⟩ m' hm
    refine ⟨houtcome, hstores, new ++ [e], new', ?_, hnew', hheard.alone hq hl⟩
    simpa using hnew
  | @nameless parent next' hn hq hl hfills =>
    rw [run_addChild_apply]
    obtain ⟨houtcome, hevents, hstore⟩ := (hfills m'.store.scopes.size).run
      { m' with store := (m'.store.addChild parent).1 }
    refine ⟨?_, ⟨m'.store, hm, Or.inr ⟨⟨hn, hq, hl⟩, rfl, ?_⟩⟩, [], [], rfl, hevents, .nil⟩
    · rw [houtcome]
      exact .error (.defect _)
    · exact (Store.WritesAtMost.addChild m'.store parent).of_newer hstore (Nat.le_refl _)
  | exhausted h => exact absurd h hc

/-! ## Comparisons of equals -/

/-- All parameters of functions in a value are names. -/
def Value.NamesParameters : Value → Prop
  | .function r ps b _ => Node.NamesParameters (.function r ps b)
  | .returned v => v.NamesParameters
  | _ => True

/-- The two have the same ranges and the same names. -/
structure Comparison.Rigid (c : Comparison) : Prop where
  range : c.range = Eq
  name : c.name = Eq

theorem Comparison.Rigid.oneToOne (hc : c.Rigid) : c.OneToOne := by
  intro a a' b b' ha hb
  rw [hc.name] at ha hb
  rw [ha, hb]

section Rigid

variable (hc : c.Rigid)

include hc

theorem Comparison.Rigid.node_like_self (n : Node) (h : c.named → n.NamesParameters) :
    n.Like c.range c.name c.named n := by
  rw [hc.range, hc.name]
  exact Node.like_self h

theorem Value.Like.eq {v v' : Value} (h : v.Like c v') : v' = v := by
  induction h with
  | number x hr | boolean x hr | string x hr | empty hr =>
    rw [hc.range] at hr
    rw [hr]
  | function hr hps _ hb =>
    rw [hc.range] at hr
    rw [hc.range, hc.name] at hps hb
    rw [hr, hps.eq_self, hb.eq_self]
  | returned _ _ ih => rw [ih]

/-- A value is like itself, unless it is a marker and there must be none, or is a function
whose parameters must be names and are not. -/
theorem Value.like_self {v : Value} (h : c.marks ∨ v.isReturned = false)
    (hn : c.named → v.NamesParameters) : v.Like c v := by
  have hr : ∀ r, c.range r r := fun r => by rw [hc.range]
  induction v with
  | number r x => exact .number x (hr r)
  | boolean r b => exact .boolean b (hr r)
  | string r s => exact .string s (hr r)
  | empty r => exact .empty (hr r)
  | function r ps b scope =>
    have hb : c.named → b.NamesParameters := fun h => (hn h).child (by simp [Node.children])
    have hps : c.named → ∀ p ∈ ps, p.NamesParameters :=
      fun h p hp => (hn h).child (by simp [Node.children, hp])
    refine .function (hr r) ?_ (fun h => (hn h).parameters)
      (hc.node_like_self b hb)
    rw [hc.range, hc.name]
    exact Node.likeAll_self hps
  | returned v ih =>
    rcases h with h | h
    · exact .returned h (ih (Or.inl h) hn)
    · cases h

theorem Failure.Like.eq {failure failure' : Failure} (h : failure.Like c failure')
    (hb : failure = .exhausted → c.bottom = .exhausted) : failure' = failure := by
  cases h with
  | error hcause hr =>
    rw [hc.range] at hr
    cases hcause with
    | same => rw [hr]
    | unboundIdentifier hn =>
      rw [hc.name] at hn
      rw [hr, hn]
  | exhausted => exact hb rfl
  | defect => rfl

theorem Event.Like.eq {e e' : Event} (h : e.Like c e') : e' = e := by
  cases h with
  | statement text hr | branch text hr =>
    rw [hc.range] at hr
    rw [hr]
  | call count hns hr =>
    rw [hc.name, List.forall₂_eq_eq_eq] at hns
    rw [hc.range] at hr
    rw [hr, hns]
  | binding text hn =>
    rw [hc.name] at hn
    rw [hn]

theorem Bindings.Like.eq {b b' : Bindings} (h : b.Like c b') : b' = b := by
  induction h with
  | nil => rfl
  | @cons x x' rest rest' hx _ ih =>
    obtain ⟨hname, hvalue⟩ := hx
    rw [hc.name] at hname
    rw [ih, Prod.ext hname.symm (hvalue.eq hc)]

theorem OutcomeLike.eq (hb : c.bottom = .exhausted) {x y : Except Failure Value}
    (h : OutcomeLike c (Value.Like c) x y) : y = x := by
  cases h with
  | ok hv => rw [hv.eq hc]
  | error h => rw [h.eq hc fun _ => hb]

end Rigid

/-- A store is its scopes: how many there are, which is inside which, and what they bind. -/
theorem Store.eq_of_scopes {s s' : Store} (hsize : s.scopes.size = s'.scopes.size)
    (hparent : ∀ id, s.parent? id = s'.parent? id)
    (hbindings : ∀ id, s.bindings id = s'.bindings id) : s = s' := by
  have hscopes : s.scopes = s'.scopes := by
    refine Array.ext hsize fun id h h' => ?_
    have hp := hparent id
    have hb := hbindings id
    simp only [parent?, bindings, Array.getElem?_eq_getElem h, Array.getElem?_eq_getElem h',
      Option.bind_some] at hp hb
    cases hid : s.scopes[id] with
    | mk parent bindings =>
      cases hid' : s'.scopes[id] with
      | mk parent' bindings' =>
        rw [hid, hid'] at hp hb
        exact Scope.mk.injEq .. ▸ ⟨hp, hb⟩
  cases s
  cases s'
  cases hscopes
  rfl

theorem Store.Like.eq (hc : c.Rigid) {s s' : Store} (h : s.Like c s') : s' = s :=
  (Store.eq_of_scopes h.size h.parent fun id => ((h.bindings id).eq hc).symm).symm

end HangulScript
