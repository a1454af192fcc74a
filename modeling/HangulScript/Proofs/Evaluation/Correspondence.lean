import HangulScript.Evaluation.Machine
import HangulScript.Proofs.Evaluation.Frame
import HangulScript.Proofs.Evaluation.Regions
import Mathlib.Data.List.Forall2
import Mathlib.Order.Basic

/-!
# Correspondences between stores

The numbers of scopes mean nothing in themselves.  Two stores can have the same scopes under
different numbers, next to any number of other scopes.  A *correspondence* pairs scopes of the
one with scopes of the other, one to one.  It joins the stores if what it pairs looks the same:
parents are paired again, the same names are bound, and the values bound to them are equal up to
the numbers in them.  So a correspondence that joins two stores and pairs two scopes pairs
everything that can be reached from them (`Joins.exists_relates`).

Two runs are *alike* if they do the same from stores that are joined: they fail with the same
failure or give results that correspond, and they record the same events.  A run makes scopes, and
makes them under numbers of its own, so the correspondence grows on the way; it grows by scopes
that are new on both sides (`Grows`), and no scope is paired anew that was there before.
-/

namespace Option.Rel

variable {α β : Type} {r r' : α → β → Prop} {o : Option α} {o' : Option β}

theorem imp (h : Option.Rel r o o') (hr : ∀ a b, r a b → r' a b) : Option.Rel r' o o' := by
  cases h with
  | none => exact .none
  | some hab => exact .some (hr _ _ hab)

theorem or {o₂ : Option α} {o₂' : Option β} (h : Option.Rel r o o') (h₂ : Option.Rel r o₂ o₂') :
    Option.Rel r (o.or o₂) (o'.or o₂') := by
  cases h with
  | none => simpa using h₂
  | some hab => exact .some hab

/-- What is there on the one side has its counterpart on the other. -/
theorem exists_of_eq_some (h : Option.Rel r o o') {a : α} (ha : o = .some a) :
    ∃ b, o' = .some b ∧ r a b := by
  subst ha
  cases h with
  | some hab => exact ⟨_, rfl, hab⟩

/-- Nothing on the one side has nothing on the other. -/
theorem eq_none (h : Option.Rel r o o') (ho : o = .none) : o' = .none := by
  subst ho
  cases h
  rfl

end Option.Rel

namespace HangulScript

/-- A pairing of scopes of one store with scopes of another, one to one. -/
structure Correspondence where
  relates : ScopeId → ScopeId → Prop
  right_unique {a b b' : ScopeId} : relates a b → relates a b' → b = b'
  left_unique {a a' b : ScopeId} : relates a b → relates a' b → a = a'

/-- Values correspond if they are equal up to the scopes that functions were made in, and these
are paired. -/
inductive Value.Corresponds (β : Correspondence) : Value → Value → Prop
  | number (range : Range) (x : Double) : Corresponds β (.number range x) (.number range x)
  | boolean (range : Range) (b : Bool) : Corresponds β (.boolean range b) (.boolean range b)
  | string (range : Range) (text : String) : Corresponds β (.string range text) (.string range text)
  | empty (range : Range) : Corresponds β (.empty range) (.empty range)
  | function (range : Range) (params : List Node) (body : Node) {a b : ScopeId} :
      β.relates a b → Corresponds β (.function range params body a) (.function range params body b)
  | returned {v w : Value} : Corresponds β v w → Corresponds β (.returned v) (.returned w)

namespace Correspondence

/-- A correspondence is below another that pairs whatever it pairs. -/
instance : Preorder Correspondence where
  le β β' := ∀ a b, β.relates a b → β'.relates a b
  le_refl _ _ _ h := h
  le_trans _ _ _ h h' a b hab := h' a b (h a b hab)

/-- Each of some scopes paired with itself. -/
def diagonal (among : ScopeId → Prop) : Correspondence where
  relates a b := a = b ∧ among a
  right_unique h h' := h.1.symm.trans h'.1
  left_unique h h' := h.1.trans h'.1.symm

/-- A correspondence with one more pair, of two scopes that were not paired. -/
def withPair (β : Correspondence) (id id' : ScopeId)
    (unpaired : ∀ a b, β.relates a b → a ≠ id ∧ b ≠ id') : Correspondence where
  relates a b := β.relates a b ∨ (a = id ∧ b = id')
  right_unique := by
    rintro a b b' (h | ⟨ha, hb⟩) (h' | ⟨ha', hb'⟩)
    · exact β.right_unique h h'
    · exact absurd ha' (unpaired a b h).1
    · exact absurd ha (unpaired a b' h').1
    · exact hb.trans hb'.symm
  left_unique := by
    rintro a a' b (h | ⟨ha, hb⟩) (h' | ⟨ha', hb'⟩)
    · exact β.left_unique h h'
    · exact absurd hb' (unpaired a b h).2
    · exact absurd hb (unpaired a' b h').2
    · exact ha.trans ha'.symm

end Correspondence

namespace Value.Corresponds

variable {β β' : Correspondence} {v w : Value}

theorem mono (h : Corresponds β v w) (hβ : β ≤ β') : Corresponds β' v w := by
  induction h with
  | number range x => exact .number range x
  | boolean range b => exact .boolean range b
  | string range text => exact .string range text
  | empty range => exact .empty range
  | function range params body hab => exact .function range params body (hβ _ _ hab)
  | returned _ ih => exact .returned ih

/-- A value corresponds to itself if the scope that it was made in is paired with itself. -/
theorem self (h : ∀ c, v.scope? = some c → β.relates c c) : Corresponds β v v := by
  induction v with
  | number range x => exact .number range x
  | boolean range b => exact .boolean range b
  | string range text => exact .string range text
  | empty range => exact .empty range
  | function range params body scope => exact .function range params body (h scope rfl)
  | returned v ih => exact .returned (ih h)

/-- The scope of a function is paired with that of a function that corresponds to it. -/
theorem exists_scope (h : Corresponds β v w) {c : ScopeId} (hc : v.scope? = some c) :
    ∃ d, w.scope? = some d ∧ β.relates c d := by
  induction h with
  | function _ _ _ hab =>
    cases hc
    exact ⟨_, rfl, hab⟩
  | returned _ ih => exact ih hc
  | _ => cases hc

end Value.Corresponds

namespace Correspondence

/-- The scopes that are paired are there, have parents that are paired, and bind the same names to
values that correspond. -/
structure Joins (β : Correspondence) (s s' : Store) : Prop where
  exist {a b : ScopeId} : β.relates a b → a < s.scopes.size ∧ b < s'.scopes.size
  parent {a b : ScopeId} : β.relates a b → Option.Rel β.relates (s.parent? a) (s'.parent? b)
  bound {a b : ScopeId} (name : String) : β.relates a b →
    Option.Rel (Value.Corresponds β) ((s.bindings a).lookup name) ((s'.bindings b).lookup name)

/-- A correspondence between two stores becomes one between two later stores, by pairs of scopes
that were made in the meantime. -/
structure Grows (β : Correspondence) (s s' : Store) (β' : Correspondence) (t t' : Store) :
    Prop where
  keeps : β ≤ β'
  fresh : ∀ a b, β'.relates a b → β.relates a b ∨ (s.scopes.size ≤ a ∧ s'.scopes.size ≤ b)
  size_le : s.scopes.size ≤ t.scopes.size
  size_le' : s'.scopes.size ≤ t'.scopes.size

variable {β β' β'' : Correspondence} {s s' t t' u u' : Store}

theorem Grows.refl (β : Correspondence) (s s' : Store) : β.Grows s s' β s s' :=
  ⟨le_refl β, fun _ _ h => Or.inl h, Nat.le_refl _, Nat.le_refl _⟩

theorem Grows.trans (h : β.Grows s s' β' t t') (h' : β'.Grows t t' β'' u u') :
    β.Grows s s' β'' u u' := by
  refine ⟨h.keeps.trans h'.keeps, ?_, Nat.le_trans h.size_le h'.size_le,
    Nat.le_trans h.size_le' h'.size_le'⟩
  intro a b hab
  rcases h'.fresh a b hab with hab' | ⟨ha, hb⟩
  · exact h.fresh a b hab'
  · exact Or.inr ⟨Nat.le_trans h.size_le ha, Nat.le_trans h.size_le' hb⟩

namespace Joins

/-- **Looking a name up** finds values that correspond, or nothing on both sides. -/
theorem get? (h : β.Joins s s') {a b : ScopeId} (hab : β.relates a b) (name : String) :
    Option.Rel (Value.Corresponds β) (s.get? a name) (s'.get? b name) := by
  induction a using Nat.strongRecOn generalizing b with
  | _ a ih =>
    rw [Store.get?_eq, Store.get?_eq]
    refine (h.bound name hab).or ?_
    have hparent := h.parent hab
    cases hp : s.parent? a with
    | none =>
      rw [hparent.eq_none hp]
      exact .none
    | some p =>
      obtain ⟨q, hq, hpq⟩ := hparent.exists_of_eq_some hp
      rw [hq]
      exact ih p (Store.parent?_lt hp) hpq

/-- Values that correspond, bound in scopes that are paired.  No other scope of either side is
written, because the pairing is one to one. -/
theorem bind (h : β.Joins s s') {a b : ScopeId} (hab : β.relates a b) (name : String)
    {v w : Value} (hvw : v.Corresponds β w) :
    β.Joins (s.bind a name v) (s'.bind b name w) := by
  refine ⟨?_, ?_, ?_⟩
  · intro c d hcd
    rw [Store.size_bind, Store.size_bind]
    exact h.exist hcd
  · intro c d hcd
    rw [Store.parent?_bind, Store.parent?_bind]
    exact h.parent hcd
  · intro c d name' hcd
    obtain ⟨ha, hb⟩ := h.exist hab
    have hiff : c = a ↔ d = b := by
      constructor
      · rintro rfl
        exact β.right_unique hcd hab
      · rintro rfl
        exact β.left_unique hcd hab
    rw [Store.lookup_bindings_bind, Store.lookup_bindings_bind]
    by_cases hc : c = a ∧ name' = name
    · rw [if_pos ⟨hc.1, hc.2, ha⟩, if_pos ⟨hiff.mp hc.1, hc.2, hb⟩]
      exact .some hvw
    · rw [if_neg fun he => hc ⟨he.1, he.2.1⟩, if_neg fun he => hc ⟨hiff.mpr he.1, he.2.1⟩]
      exact h.bound name' hcd

/-- Scopes made inside scopes that are paired can be paired. -/
theorem addChild (h : β.Joins s s') {p q : ScopeId} (hpq : β.relates p q) :
    ∃ β', β.Grows s s' β' (s.addChild p).1 (s'.addChild q).1 ∧
      β'.Joins (s.addChild p).1 (s'.addChild q).1 ∧
        β'.relates (s.addChild p).2 (s'.addChild q).2 := by
  have hunpaired : ∀ a b, β.relates a b → a ≠ s.scopes.size ∧ b ≠ s'.scopes.size :=
    fun a b hab => ⟨Nat.ne_of_lt (h.exist hab).1, Nat.ne_of_lt (h.exist hab).2⟩
  let β' := β.withPair s.scopes.size s'.scopes.size hunpaired
  have hkeeps : β ≤ β' := fun a b hab => Or.inl hab
  refine ⟨β', ⟨hkeeps, ?_, ?_, ?_⟩, ⟨?_, ?_, ?_⟩, ?_⟩
  · rintro a b (hab | ⟨rfl, rfl⟩)
    · exact Or.inl hab
    · exact Or.inr ⟨Nat.le_refl _, Nat.le_refl _⟩
  · rw [Store.size_addChild]
    exact Nat.le_succ _
  · rw [Store.size_addChild]
    exact Nat.le_succ _
  · rw [Store.size_addChild, Store.size_addChild]
    rintro a b (hab | ⟨rfl, rfl⟩)
    · exact ⟨Nat.lt_succ_of_lt (h.exist hab).1, Nat.lt_succ_of_lt (h.exist hab).2⟩
    · exact ⟨Nat.lt_succ_self _, Nat.lt_succ_self _⟩
  · rintro a b (hab | ⟨rfl, rfl⟩)
    · rw [Store.parent?_addChild, Store.parent?_addChild, if_neg (hunpaired a b hab).1,
        if_neg (hunpaired a b hab).2]
      exact (h.parent hab).imp hkeeps
    · obtain ⟨hp, hq⟩ := h.exist hpq
      simp only [Store.parent?_addChild, if_true, hp, hq]
      exact .some (hkeeps p q hpq)
  · intro a b name hab
    rw [Store.bindings_addChild, Store.bindings_addChild]
    rcases hab with hab | ⟨rfl, rfl⟩
    · exact (h.bound name hab).imp fun v w hvw => hvw.mono hkeeps
    · rw [Store.bindings_of_le (Nat.le_refl _), Store.bindings_of_le (Nat.le_refl _)]
      exact .none
  · rw [Store.addChild_snd, Store.addChild_snd]
    exact Or.inr ⟨rfl, rfl⟩

/-- **Everything that can be reached is paired**, if that from which it is reached is. -/
theorem exists_relates (h : β.Joins s s') {origin : ScopeId → Prop}
    (ho : ∀ a, origin a → ∃ b, β.relates a b) {a : ScopeId} (ha : s.Reaches origin a) :
    ∃ b, β.relates a b := by
  induction ha with
  | here ha => exact ho _ ha
  | parent _ hp ih =>
    obtain ⟨b, hab⟩ := ih
    obtain ⟨q, -, hpq⟩ := (h.parent hab).exists_of_eq_some hp
    exact ⟨q, hpq⟩
  | captured _ hv hc ih =>
    obtain ⟨b, hab⟩ := ih
    obtain ⟨w, -, hvw⟩ := (h.bound _ hab).exists_of_eq_some hv
    obtain ⟨d, -, hcd⟩ := hvw.exists_scope hc
    exact ⟨d, hcd⟩

/-- A store has what can be reached from scopes that are paired. -/
theorem closed (h : β.Joins s s') {origin : ScopeId → Prop}
    (ho : ∀ a, origin a → ∃ b, β.relates a b) : s.Closed origin := by
  intro a ha
  obtain ⟨b, hab⟩ := h.exists_relates ho ha
  exact (h.exist hab).1

/-- What can be reached in a store is joined with itself in a later store, if it was not written
on the way. -/
theorem diagonal {origin : ScopeId → Prop} (hin : s.Closed origin)
    (hs : Store.WritesAtMost none s s') :
    (diagonal (s.Reaches origin)).Joins s s' := by
  refine ⟨?_, ?_, ?_⟩
  · rintro a b ⟨rfl, ha⟩
    exact ⟨hin a ha, Nat.lt_of_lt_of_le (hin a ha) hs.size_le⟩
  · rintro a b ⟨rfl, ha⟩
    rw [hs.parent_eq a (hin a ha)]
    cases hp : s.parent? a with
    | none => exact .none
    | some p => exact .some ⟨rfl, ha.parent hp⟩
  · rintro a b name ⟨rfl, ha⟩
    have hbindings : s'.bindings a = s.bindings a := by
      simp only [Store.bindings, hs.scope_eq a (hin a ha) (Option.some_ne_none a).symm]
    rw [hbindings]
    cases hv : List.lookup name (s.bindings a) with
    | none => exact .none
    | some v => exact .some (.self fun c hc => ⟨rfl, ha.captured hv hc⟩)

end Joins
end Correspondence

/-! ## Runs -/

/-- Two outcomes agree: both are results, and these are related, or both are the same failure. -/
inductive Agree {α α' : Type} (related : α → α' → Prop) :
    Except Failure α → Except Failure α' → Prop
  | ok {a : α} {a' : α'} : related a a' → Agree related (.ok a) (.ok a')
  | error (failure : Failure) : Agree related (.error failure) (.error failure)

theorem Agree.imp {α α' : Type} {related related' : α → α' → Prop} {x : Except Failure α}
    {y : Except Failure α'} (h : Agree related x y) (hr : ∀ a a', related a a' → related' a a') :
    Agree related' x y := by
  cases h with
  | ok ha => exact .ok (hr _ _ ha)
  | error failure => exact .error failure

/-- How two runs end that began at two machines: the correspondence between their stores has grown
to one that still joins the stores, the outcomes agree, and the same events were recorded, so the
same lines tell them. -/
def EndAlike (β : Correspondence) {α α' : Type} (related : Correspondence → α → α' → Prop)
    (m m' : Machine) (ending : Except Failure α × Machine) (ending' : Except Failure α' × Machine) :
    Prop :=
  ∃ β' : Correspondence, β.Grows m.store m'.store β' ending.2.store ending'.2.store ∧
    β'.Joins ending.2.store ending'.2.store ∧ Agree (related β') ending.1 ending'.1 ∧
      ∃ events, ending.2.events = events ++ m.events ∧ ending'.2.events = events ++ m'.events

namespace Run

/-- Two runs do the same from stores that are joined. -/
def Alike (β : Correspondence) {α α' : Type} (related : Correspondence → α → α' → Prop)
    (x : Run α) (y : Run α') : Prop :=
  ∀ m m' : Machine, β.Joins m.store m'.store → EndAlike β related m m' (x m) (y m')

namespace Alike

variable {α α' γ γ' : Type} {β : Correspondence} {x : Run α} {y : Run α'}
  {related : Correspondence → α → α' → Prop} {related' : Correspondence → γ → γ' → Prop}

theorem done {a : α} {a' : α'} (h : related β a a') :
    Alike β related (pure a) (pure a') :=
  fun m m' hm => ⟨β, .refl β m.store m'.store, hm, .ok h, [], rfl, rfl⟩

theorem fail (failure : Failure) :
    Alike β related (Run.fail failure : Run α) (Run.fail failure : Run α') :=
  fun m m' hm => ⟨β, .refl β m.store m'.store, hm, .error failure, [], rfl, rfl⟩

/-- What is related in one way is in another. -/
theorem imp {related' : Correspondence → α → α' → Prop} (h : Alike β related x y)
    (hr : ∀ β' a a', related β' a a' → related' β' a a') : Alike β related' x y := by
  intro m m' hm
  obtain ⟨β', hgrows, hjoins, hagree, hevents⟩ := h m m' hm
  exact ⟨β', hgrows, hjoins, hagree.imp (hr β'), hevents⟩

/-- One thing after the other.  What comes second begins with a correspondence that may have
grown. -/
theorem bind {f : α → Run γ} {g : α' → Run γ'} (h : Alike β related x y)
    (hf : ∀ β' a a', β ≤ β' → related β' a a' → Alike β' related' (f a) (g a')) :
    Alike β related' (x >>= f) (y >>= g) := by
  intro m m' hm
  obtain ⟨β', hgrows, hjoins, hagree, events, he, he'⟩ := h m m' hm
  rw [bind_apply, bind_apply]
  cases hx : x m with
  | mk outcome n =>
    cases hy : y m' with
    | mk outcome' n' =>
      rw [hx, hy] at hgrows hjoins hagree
      rw [hx] at he
      rw [hy] at he'
      cases hagree with
      | error failure => exact ⟨β', hgrows, hjoins, .error failure, events, he, he'⟩
      | ok haa =>
        obtain ⟨β'', hgrows', hjoins', hagree', later, hl, hl'⟩ :=
          hf β' _ _ hgrows.keeps haa n n' hjoins
        refine ⟨β'', hgrows.trans hgrows', hjoins', hagree', later ++ events, ?_, ?_⟩
        · rw [hl, he, List.append_assoc]
        · rw [hl', he', List.append_assoc]

theorem record (e : Event) : Alike β (fun _ _ _ => True) (Run.record e) (Run.record e) :=
  fun m m' hm => ⟨β, .refl β m.store m'.store, hm, .ok trivial, [e], rfl, rfl⟩

theorem get? {a b : ScopeId} (hab : β.relates a b) (name : String) :
    Alike β (fun β' => Option.Rel (Value.Corresponds β')) (Run.get? a name) (Run.get? b name) :=
  fun m m' hm => ⟨β, .refl β m.store m'.store, hm, .ok (hm.get? hab name), [], rfl, rfl⟩

theorem bindIn {a b : ScopeId} (hab : β.relates a b) (name : String) {v w : Value}
    (hvw : v.Corresponds β w) :
    Alike β (fun _ _ _ => True) (Run.bindIn a name v) (Run.bindIn b name w) := by
  intro m m' hm
  refine ⟨β, ⟨le_refl β, fun _ _ h => Or.inl h, ?_, ?_⟩, hm.bind hab name hvw, .ok trivial, [],
    rfl, rfl⟩
  · exact Nat.le_of_eq (Store.size_bind ..).symm
  · exact Nat.le_of_eq (Store.size_bind ..).symm

theorem addChild {p q : ScopeId} (hpq : β.relates p q) :
    Alike β Correspondence.relates (Run.addChild p) (Run.addChild q) := by
  intro m m' hm
  obtain ⟨β', hgrows, hjoins, hnew⟩ := hm.addChild hpq
  exact ⟨β', hgrows, hjoins, .ok hnew, [], rfl, rfl⟩

end Alike
end Run
end HangulScript
