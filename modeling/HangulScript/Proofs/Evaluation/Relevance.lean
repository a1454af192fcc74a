import HangulScript.Proofs.Evaluation.Variants

/-!
# Names that do not occur in a program do not matter to it

A program looks up no names but its own.  Two scopes in which these are found with the same values
are one and the same to it, whatever else is bound there, however many scopes are around each, and
on whichever level a name is bound.

After the first assignment the two scopes are further apart than before: what overwrites a binding
in the one shadows one in the other.  So bindings are not what stays equal, and what is compared
are the results of lookups.  It is enough to compare them from the two scopes themselves and from
those that are made on the way, of which there are as many on both sides, in the same order.  A
scope made on the way has one of these around it, and no scope around the two can ever be reached
but by a lookup; for this no function may be found there to begin with.
-/

namespace HangulScript

namespace Store

variable {s s' : Store}

/-- What is found in a scope stays the same, if only later scopes are written. -/
theorem WritesAtMost.get?_eq {own : Option ScopeId} (h : WritesAtMost own s s') {id : ScopeId}
    (hid : id < s.scopes.size) (hown : ∀ c, own = some c → id < c) (name : String) :
    s'.get? id name = s.get? id name := by
  induction id using Nat.strongRecOn with
  | _ id ih =>
    have hscope : s'.scopes[id]? = s.scopes[id]? :=
      h.scope_eq id hid fun he => Nat.lt_irrefl id (hown id he)
    have hbindings : s'.bindings id = s.bindings id := by simp only [bindings, hscope]
    rw [Store.get?_eq, Store.get?_eq, hbindings, h.parent_eq id hid]
    cases hp : s.parent? id with
    | none => rfl
    | some p =>
      have hlt : p < id := parent?_lt hp
      have hparent := ih p hlt (Nat.lt_trans hlt hid) fun c hc => Nat.lt_trans hlt (hown c hc)
      simp only [Option.bind_some, hparent]

/-- A name that is bound in a scope is found there, and other names as before. -/
theorem get?_bind_self {id : ScopeId} (hid : id < s.scopes.size) (name other : String)
    (value : Value) :
    (s.bind id name value).get? id other =
      if other = name then some value else s.get? id other := by
  rw [get?_eq, get?_eq s, lookup_bindings_bind, parent?_bind]
  by_cases ho : other = name
  · rw [if_pos ⟨rfl, ho, hid⟩, if_pos ho]
    rfl
  · rw [if_neg fun h => ho h.2.1, if_neg ho]
    cases hp : s.parent? id with
    | none => rfl
    | some p =>
      have hlt : p < id := parent?_lt hp
      have hparent := (WritesAtMost.bind s id name value).get?_eq (Nat.lt_trans hlt hid)
        (fun c hc => Option.some.inj hc ▸ hlt) other
      simp only [Option.bind_some, hparent]

end Store

/-! ## Two scopes and those made afterwards -/

/-- Two scopes of two stores paired, and the scopes that are made afterwards, in their order. -/
def Correspondence.onwards {a b n n' : ScopeId} (ha : a < n) (hb : b < n') : Correspondence where
  relates c d := (c = a ∧ d = b) ∨ ∃ k, c = n + k ∧ d = n' + k
  right_unique := by
    rintro c d d' (⟨rfl, rfl⟩ | ⟨k, rfl, rfl⟩) (⟨hc, rfl⟩ | ⟨k', hc, rfl⟩)
    · rfl
    · exact absurd hc (Nat.ne_of_lt (Nat.lt_add_right k' ha))
    · exact absurd hc.symm (Nat.ne_of_lt (Nat.lt_add_right k ha))
    · rw [Nat.add_left_cancel hc]
  left_unique := by
    rintro c c' d (⟨rfl, rfl⟩ | ⟨k, rfl, rfl⟩) (⟨rfl, hd⟩ | ⟨k', rfl, hd⟩)
    · rfl
    · exact absurd hd (Nat.ne_of_lt (Nat.lt_add_right k' hb))
    · exact absurd hd.symm (Nat.ne_of_lt (Nat.lt_add_right k hb))
    · rw [Nat.add_left_cancel hd]

/-- The names of some sort, the same on both sides, in scopes that correspond. -/
def Variation.among (sort : String → Prop) (β : Correspondence) : Variation where
  name n n' := n = n' ∧ sort n
  scope := β.relates
  idle := False

variable {sort : String → Prop} {β : Correspondence}

theorem Value.Varies.corresponds {v w : Value} (h : v.Varies (.among sort β) w) :
    v.Corresponds β w := by
  have hname : ∀ n n', (Variation.among sort β).name n n' → n' = n := fun _ _ h => h.1.symm
  induction h with
  | number r x => exact .number r x
  | boolean r b => exact .boolean r b
  | string r text => exact .string r text
  | empty r => exact .empty r
  | @function r ps ps' body body' _ _ hps hbody hscope =>
    have hps' := hps.eq_renamedAll hname id
    have hbody' := hbody.eq_renamed hname id
    rw [Node.renamedAll_id] at hps'
    rw [Node.renamed_id] at hbody'
    subst hps' hbody'
    exact .function r ps' body' hscope
  | returned _ ih => exact .returned ih

theorem Value.varies_of_scopeless {V : Variation} {v : Value} (h : v.scope? = none) :
    v.Varies V v := by
  induction v with
  | number r x => exact .number r x
  | boolean r b => exact .boolean r b
  | string r text => exact .string r text
  | empty r => exact .empty r
  | function => cases h
  | returned v ih => exact .returned (ih h)

section Stores

variable {a b : ScopeId} {s s' t t' : Store} (ha : a < s.scopes.size) (hb : b < s'.scopes.size)

/-- How far two stores have come from two earlier ones, if names of some sort alone were asked for
and bound, and only in two scopes of theirs and in later ones.  In these the names are found with
values that correspond; in the two scopes all other names are found as they were. -/
structure Store.ComeOn (sort : String → Prop) (t t' : Store) : Prop where
  sizes : ∃ k, t.scopes.size = s.scopes.size + k ∧ t'.scopes.size = s'.scopes.size + k
  outer : ∀ name, sort name →
    Option.Rel (Value.Varies (.among sort (.onwards ha hb))) (t.get? a name) (t'.get? b name)
  parent : ∀ k, Option.Rel (Correspondence.onwards ha hb).relates
    (t.parent? (s.scopes.size + k)) (t'.parent? (s'.scopes.size + k))
  bound : ∀ k name, sort name → Option.Rel (Value.Varies (.among sort (.onwards ha hb)))
    ((t.bindings (s.scopes.size + k)).lookup name) ((t'.bindings (s'.scopes.size + k)).lookup name)
  rest : ∀ name, ¬ sort name → t.get? a name = s.get? a name ∧ t'.get? b name = s'.get? b name

variable {ha hb}

namespace Store.ComeOn

variable {c d : ScopeId} {name : String}

/-- In the beginning, the names need only be found with the same values, and no functions among
them. -/
theorem refl (hsame : ∀ name, sort name → s'.get? b name = s.get? a name)
    (hplain : ∀ name v, sort name → s.get? a name = some v → v.scope? = none) :
    ComeOn ha hb sort s s' := by
  refine ⟨⟨0, rfl, rfl⟩, fun name hname => ?_, fun k => ?_, fun k name _ => ?_, fun _ _ =>
    ⟨rfl, rfl⟩⟩
  · rw [hsame name hname]
    cases hv : s.get? a name with
    | none => exact .none
    | some v => exact .some (Value.varies_of_scopeless (hplain name v hname hv))
  · rw [parent?_of_le (Nat.le_add_right _ k), parent?_of_le (Nat.le_add_right _ k)]
    exact .none
  · rw [bindings_of_le (Nat.le_add_right _ k), bindings_of_le (Nat.le_add_right _ k)]
    exact .none

/-- **Looking a name up** finds values that correspond.  The way outwards leads through scopes
made on the way, and ends in one of the two scopes or in none. -/
theorem get? (h : ComeOn ha hb sort t t') (hcd : (Correspondence.onwards ha hb).relates c d)
    (hname : sort name) :
    Option.Rel (Value.Varies (.among sort (.onwards ha hb))) (t.get? c name) (t'.get? d name) := by
  induction c using Nat.strongRecOn generalizing d with
  | _ c ih =>
    rcases hcd with ⟨rfl, rfl⟩ | ⟨k, rfl, rfl⟩
    · exact h.outer name hname
    · rw [Store.get?_eq, Store.get?_eq]
      refine (h.bound k name hname).or ?_
      have hparent := h.parent k
      cases hp : t.parent? (s.scopes.size + k) with
      | none =>
        rw [hparent.eq_none hp]
        exact .none
      | some p =>
        obtain ⟨q, hq, hpq⟩ := hparent.exists_of_eq_some hp
        rw [hq]
        exact ih p (Store.parent?_lt hp) hpq

theorem size_le (h : ComeOn ha hb sort t t') :
    s.scopes.size ≤ t.scopes.size ∧ s'.scopes.size ≤ t'.scopes.size := by
  obtain ⟨k, hk, hk'⟩ := h.sizes
  omega

theorem lt_size_iff (h : ComeOn ha hb sort t t')
    (hcd : (Correspondence.onwards ha hb).relates c d) :
    c < t.scopes.size ↔ d < t'.scopes.size := by
  obtain ⟨k, hk, hk'⟩ := h.sizes
  rw [hk, hk']
  rcases hcd with ⟨rfl, rfl⟩ | ⟨j, rfl, rfl⟩
  · exact iff_of_true (Nat.lt_add_right k ha) (Nat.lt_add_right k hb)
  · rw [Nat.add_lt_add_iff_left, Nat.add_lt_add_iff_left]

/-- Binding in a scope that was made on the way is not seen from the two scopes. -/
theorem get?_bind_of_le (h : ComeOn ha hb sort t t') (k : Nat) (v w : Value) (other : String) :
    (t.bind (s.scopes.size + k) name v).get? a other = t.get? a other ∧
      (t'.bind (s'.scopes.size + k) name w).get? b other = t'.get? b other := by
  obtain ⟨hs, hs'⟩ := h.size_le
  refine ⟨(WritesAtMost.bind t _ name v).get?_eq (Nat.lt_of_lt_of_le ha hs) ?_ other,
    (WritesAtMost.bind t' _ name w).get?_eq (Nat.lt_of_lt_of_le hb hs') ?_ other⟩
  · intro c hc
    exact Option.some.inj hc ▸ Nat.lt_add_right k ha
  · intro c hc
    exact Option.some.inj hc ▸ Nat.lt_add_right k hb

theorem bind (h : ComeOn ha hb sort t t') (hcd : (Correspondence.onwards ha hb).relates c d)
    (hname : sort name) {v w : Value} (hvw : v.Varies (.among sort (.onwards ha hb)) w) :
    ComeOn ha hb sort (t.bind c name v) (t'.bind d name w) := by
  obtain ⟨hs, hs'⟩ := h.size_le
  have hat := Nat.lt_of_lt_of_le ha hs
  have hbt := Nat.lt_of_lt_of_le hb hs'
  have houter : ∀ other, (sort other → Option.Rel (Value.Varies (.among sort (.onwards ha hb)))
        ((t.bind c name v).get? a other) ((t'.bind d name w).get? b other)) ∧
      (¬ sort other → (t.bind c name v).get? a other = s.get? a other ∧
        (t'.bind d name w).get? b other = s'.get? b other) := by
    intro other
    rcases hcd with ⟨rfl, rfl⟩ | ⟨k, rfl, rfl⟩
    · rw [get?_bind_self hat, get?_bind_self hbt]
      by_cases ho : other = name
      · rw [if_pos ho, if_pos ho]
        exact ⟨fun _ => .some hvw, fun hn => absurd (ho ▸ hname) hn⟩
      · rw [if_neg ho, if_neg ho]
        exact ⟨h.outer other, h.rest other⟩
    · obtain ⟨hl, hr⟩ := h.get?_bind_of_le k v w other
      rw [hl, hr]
      exact ⟨h.outer other, h.rest other⟩
  refine ⟨?_, fun other => (houter other).1, fun k => ?_, fun k other hother => ?_,
    fun other => (houter other).2⟩
  · rw [size_bind, size_bind]
    exact h.sizes
  · rw [parent?_bind, parent?_bind]
    exact h.parent k
  · have hk : (Correspondence.onwards ha hb).relates (s.scopes.size + k) (s'.scopes.size + k) :=
      Or.inr ⟨k, rfl, rfl⟩
    have hiff : s.scopes.size + k = c ↔ s'.scopes.size + k = d := by
      constructor
      · rintro rfl
        exact (Correspondence.onwards ha hb).right_unique hk hcd
      · rintro rfl
        exact (Correspondence.onwards ha hb).left_unique hk hcd
    have hsize := h.lt_size_iff hcd
    rw [lookup_bindings_bind, lookup_bindings_bind]
    by_cases hc : s.scopes.size + k = c ∧ other = name ∧ c < t.scopes.size
    · rw [if_pos hc, if_pos ⟨hiff.mp hc.1, hc.2.1, hsize.mp hc.2.2⟩]
      exact .some hvw
    · rw [if_neg hc, if_neg fun hd => hc ⟨hiff.mpr hd.1, hd.2.1, hsize.mpr hd.2.2⟩]
      exact h.bound k other hother

theorem addChild (h : ComeOn ha hb sort t t')
    (hcd : (Correspondence.onwards ha hb).relates c d) :
    ComeOn ha hb sort (t.addChild c).1 (t'.addChild d).1 := by
  obtain ⟨hs, hs'⟩ := h.size_le
  have hleft (name : String) := (WritesAtMost.addChild t c).get?_eq (Nat.lt_of_lt_of_le ha hs)
    (fun _ he => nomatch he) name
  have hright (name : String) := (WritesAtMost.addChild t' d).get?_eq (Nat.lt_of_lt_of_le hb hs')
    (fun _ he => nomatch he) name
  refine ⟨?_, fun name hname => ?_, fun k => ?_, fun k name hname => ?_, fun name hname => ?_⟩
  · obtain ⟨k, hk, hk'⟩ := h.sizes
    rw [size_addChild, size_addChild, hk, hk']
    exact ⟨k + 1, rfl, rfl⟩
  · rw [hleft, hright]
    exact h.outer name hname
  · have hnew : s.scopes.size + k = t.scopes.size ↔ s'.scopes.size + k = t'.scopes.size := by
      obtain ⟨j, hj, hj'⟩ := h.sizes
      omega
    have hsize := h.lt_size_iff hcd
    rw [parent?_addChild, parent?_addChild]
    by_cases hk : s.scopes.size + k = t.scopes.size
    · rw [if_pos hk, if_pos (hnew.mp hk)]
      by_cases hc : c < t.scopes.size
      · rw [if_pos hc, if_pos (hsize.mp hc)]
        exact .some hcd
      · rw [if_neg hc, if_neg fun hd => hc (hsize.mpr hd)]
        exact .none
    · rw [if_neg hk, if_neg fun hk' => hk (hnew.mpr hk')]
      exact h.parent k
  · rw [bindings_addChild, bindings_addChild]
    exact h.bound k name hname
  · rw [hleft, hright]
    exact h.rest name hname

/-- The next scope that is made corresponds to the next on the other side. -/
theorem relates_size (h : ComeOn ha hb sort t t') :
    (Correspondence.onwards ha hb).relates t.scopes.size t'.scopes.size := by
  obtain ⟨k, hk, hk'⟩ := h.sizes
  exact Or.inr ⟨k, hk, hk'⟩

end Store.ComeOn

theorem Variation.kept_comeOn :
    (among sort (.onwards ha hb)).Kept (Store.ComeOn ha hb sort) where
  get? := by
    rintro t t' c d n _ h hcd ⟨rfl, hn⟩
    exact h.get? hcd hn
  bind := by
    rintro t t' c d n _ v w h hcd ⟨rfl, hn⟩ hvw
    exact h.bind hcd hn hvw
  addChild := by
    rintro t t' c d h hcd
    refine ⟨h.addChild hcd, ?_⟩
    rw [Store.addChild_snd, Store.addChild_snd]
    exact h.relates_size

end Stores

namespace Evaluation

/-- **Names that do not occur in a program do not matter to it.**  Let a scope be given in each of
two machines, in which the names that occur in a tree are found with the same values, none of them
a function.  Then the tree comes to the same there: the same failure, at the same range, or the
same value, a function up to the scope it was made in, and those are the two scopes or scopes that
were made as the same on both sides.  Afterwards the names that occur in the tree are still found
with the same values, from the two scopes and from all that were made, in this sense; every other
name is found in the two scopes as it was; and the same events are recorded. -/
theorem only_mentioned_names_matter (verbosity limit : Nat) (tree : Node) {m m' : Machine}
    {a b : ScopeId} (ha : a < m.store.scopes.size) (hb : b < m'.store.scopes.size)
    (hsame : ∀ name, tree.Mentions name → m'.store.get? b name = m.store.get? a name)
    (hplain : ∀ name v, tree.Mentions name → m.store.get? a name = some v → v.scope? = none) :
    Agree (Value.Corresponds (.onwards ha hb)) (program verbosity limit a tree m).1
        (program verbosity limit b tree m').1 ∧
      (∀ c d, (Correspondence.onwards ha hb).relates c d → ∀ name, tree.Mentions name →
        Option.Rel (Value.Corresponds (.onwards ha hb))
          ((program verbosity limit a tree m).2.store.get? c name)
          ((program verbosity limit b tree m').2.store.get? d name)) ∧
      (∀ name, ¬ tree.Mentions name →
        (program verbosity limit a tree m).2.store.get? a name = m.store.get? a name ∧
          (program verbosity limit b tree m').2.store.get? b name = m'.store.get? b name) ∧
      ∃ new, (program verbosity limit a tree m).2.events = new ++ m.events ∧
        (program verbosity limit b tree m').2.events = new ++ m'.events := by
  have hruns : Run.Varies (.among tree.Mentions (.onwards ha hb)) _ (Value.Varies _)
      (program verbosity limit a tree) (program verbosity limit b tree) :=
    varies_program Variation.kept_comeOn verbosity limit
      (Node.variant_self fun _ hx => ⟨rfl, hx⟩) (Or.inl ⟨rfl, rfl⟩)
  have hends := hruns m m' (.refl hsame hplain)
  have hname : ∀ n n', (Variation.among tree.Mentions (.onwards ha hb)).name n n' → n = n' :=
    fun _ _ h => h.1
  refine ⟨?_, ?_, hends.stores.rest, hends.exists_events hname⟩
  · have hagree := hends.outcome.mono fun _ _ hv => hv.corresponds
    exact hagree.agree hname
  · intro c d hcd name hx
    exact (hends.stores.get? hcd hx).imp fun _ _ hv => hv.corresponds

/-- A program makes a function that returns `ㄱ`, assigns to `ㄱ` and calls the function.  It is run
in a root that binds `ㄱ`, and in a scope inside such a root, where `ㅂ` is bound to a function.  The
assignment overwrites in the one and shadows in the other. -/
theorem only_mentioned_names_matter_shadowing :
    let here := Range.point Position.origin
    let name := Node.identifier here
    let assign (target : String) (e : Node) : Node :=
      .expressionStatement here (.assignment here (name target) e)
    let get := Node.function here [] (.block here [.returnStatement here (name "ㄱ")])
    let tree := Node.program here [assign "ㅎ" get, assign "ㄱ" (.string here "b"),
      .expressionStatement here (.call here (name "ㅎ") [])]
    let root := Store.empty.addRoot.1.bind 0 "ㄱ" (.string here "a")
    let m : Machine := ⟨root, []⟩
    let m' : Machine := ⟨(root.addChild 0).1.bind 1 "ㅂ" (.function here [] get 0), []⟩
    ¬ tree.Mentions "ㅂ" ∧ (program 0 9 0 tree m).1 = .ok (.string here "b") ∧
      (program 0 9 1 tree m').2.store.get? 0 "ㄱ" = some (.string here "a") ∧
      ∃ (ha : 0 < m.store.scopes.size) (hb : 1 < m'.store.scopes.size),
        Agree (Value.Corresponds (.onwards ha hb)) (program 0 9 0 tree m).1
            (program 0 9 1 tree m').1 ∧
          (∀ c d, (Correspondence.onwards ha hb).relates c d → ∀ name, tree.Mentions name →
            Option.Rel (Value.Corresponds (.onwards ha hb))
              ((program 0 9 0 tree m).2.store.get? c name)
              ((program 0 9 1 tree m').2.store.get? d name)) ∧
          (∀ name, ¬ tree.Mentions name →
            (program 0 9 0 tree m).2.store.get? 0 name = m.store.get? 0 name ∧
              (program 0 9 1 tree m').2.store.get? 1 name = m'.store.get? 1 name) ∧
          ∃ new, (program 0 9 0 tree m).2.events = new ++ m.events ∧
            (program 0 9 1 tree m').2.events = new ++ m'.events := by
  intro here name assign get tree root m m'
  have hmentioned : ∀ x, tree.Mentions x → x ∈ tree.mentioned :=
    fun x hx => (Node.mem_mentioned_iff tree).mpr hx
  have hsame : ∀ x ∈ tree.mentioned, m'.store.get? 1 x = m.store.get? 0 x := by decide +kernel
  have hplain : ∀ x ∈ tree.mentioned,
      ((m.store.get? 0 x).bind Value.scope?).isNone = true := by decide +kernel
  have ha : 0 < m.store.scopes.size := by decide +kernel
  have hb : 1 < m'.store.scopes.size := by decide +kernel
  refine ⟨by decide +kernel, by decide +kernel, by decide +kernel, ha, hb, ?_⟩
  refine @only_mentioned_names_matter 0 9 tree m m' 0 1 ha hb
    (fun x hx => hsame x (hmentioned x hx)) fun x v hx hv => ?_
  have hnone := hplain x (hmentioned x hx)
  rw [hv] at hnone
  exact Option.isNone_iff_eq_none.mp hnone

end Evaluation
end HangulScript
