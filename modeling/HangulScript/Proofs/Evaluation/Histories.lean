import HangulScript.Proofs.Evaluation.Frame
import HangulScript.Proofs.Evaluation.Regions
import Mathlib.Data.List.Induction

/-!
# A store is what its history says

Scopes are made and names are set, in any order and on any of the scopes made so far.  A
*history* is the list of these operations.  It says all there is to know of the store that they
lead to, and says it without scopes that are written over and over: the parents of the scopes in
the order in which they were made, and for each scope what was ever set in it, old values
included.

What a name has for a value in a scope can then be said of the history alone.  One goes outwards
from the scope to the first scope that the name was ever set in, and takes what it was set to
last.  When the setting happened, before the scope in question was made or long after, is of no
importance, and neither is what happened in scopes further out.

## The walk outwards

That one arrives at a root is a matter of histories too.  A scope is made inside one that was
made before, and parents never change, so `Line` is a relation on histories: a line from a scope
to a root.  There is one line from each scope, and it is the walk of the store.
-/

namespace HangulScript

namespace Bindings

/-- The bindings after some settings, one after the other. -/
def ofSettings (settings : List (String × Value)) : Bindings :=
  settings.foldl (fun bindings setting => bindings.bind setting.1 setting.2) []

theorem ofSettings_concat (settings : List (String × Value)) (name : String) (value : Value) :
    ofSettings (settings ++ [(name, value)]) = (ofSettings settings).bind name value := by
  rw [ofSettings, List.foldl_append]
  rfl

/-- A name is bound to what it was set to last. -/
theorem lookup_ofSettings (settings : List (String × Value)) (name : String) :
    (ofSettings settings).lookup name = settings.reverse.lookup name := by
  induction settings using List.reverseRecOn with
  | nil => rfl
  | append_singleton settings setting ih =>
    obtain ⟨other, value⟩ := setting
    rw [ofSettings_concat, lookup_bind, ih, List.reverse_concat, List.lookup_cons]
    by_cases h : name = other
    · simp [h]
    · have hbeq : (name == other) = false := by simpa using h
      simp [h, hbeq]

/-- Names are in the order in which they were set first. -/
theorem names_ofSettings (settings : List (String × Value)) :
    (ofSettings settings).names = (names settings).eraseDups := by
  induction settings using List.reverseRecOn with
  | nil => rfl
  | append_singleton settings setting ih =>
    obtain ⟨name, value⟩ := setting
    have hnames : names (settings ++ [(name, value)]) = names settings ++ [name] := by simp [names]
    rw [ofSettings_concat, names_bind, ih, hnames, List.eraseDups_append]
    by_cases h : name ∈ names settings
    · simp [h, List.removeAll]
    · simp [h, List.removeAll, List.eraseDups_cons]

end Bindings

namespace Store

/-- What can be done to a store: to make a root, to make a scope inside another, and to set a
name in a scope. -/
inductive Operation where
  | new
  | child (parent : ScopeId)
  | set (scope : ScopeId) (name : String) (value : Value)

namespace Operation

/-- The store after an operation. -/
def perform (s : Store) : Operation → Store
  | new => s.addRoot.1
  | child parent => (s.addChild parent).1
  | set scope name value => s.bind scope name value

/-- The scope that an operation is done on. -/
def scope? : Operation → Option ScopeId
  | new => none
  | child parent => some parent
  | set scope _ _ => some scope

/-- The parent of the scope that an operation makes, if it makes one.  A root has none. -/
def made? : Operation → Option (Option ScopeId)
  | new => some none
  | child parent => some (some parent)
  | set .. => none

/-- What an operation sets in a scope, if it does. -/
def setting? (scope : ScopeId) : Operation → Option (String × Value)
  | set other name value => if other = scope then some (name, value) else none
  | _ => none

end Operation

/-- What was done to a store without scopes, the earliest first. -/
abbrev History := List Operation

/-- A new root has no parent; other scopes keep theirs. -/
theorem parent?_addRoot (s : Store) (id : ScopeId) :
    s.addRoot.1.parent? id = if id = s.scopes.size then none else s.parent? id := by
  by_cases hid : id = s.scopes.size
  · simp [parent?, addRoot, push, hid]
  · simp [parent?, addRoot, push, Array.getElem?_push, hid]

namespace History

/-- The store that a history leads to. -/
def store (h : History) : Store := h.foldl Operation.perform Store.empty

/-- The parents of the scopes that a history makes, in the order in which they are made. -/
def parents (h : History) : List (Option ScopeId) := h.filterMap Operation.made?

/-- What a history sets in a scope, the earliest first. -/
def settings (h : History) (scope : ScopeId) : List (String × Value) :=
  h.filterMap (Operation.setting? scope)

/-- What a name is set to last in a scope, if it is ever set there. -/
def latest? (h : History) (scope : ScopeId) (name : String) : Option Value :=
  (h.settings scope).reverse.lookup name

/-- A history of operations on scopes that were made before. -/
inductive OnScopesMade : History → Prop
  | start : OnScopesMade []
  | further {h : History} {op : Operation} : OnScopesMade h →
      (∀ scope, op.scope? = some scope → scope < h.parents.length) → OnScopesMade (h ++ [op])

/-- The scopes from a scope outwards to a root, the scope first. -/
inductive Line (h : History) : ScopeId → List ScopeId → Prop
  | root {scope : ScopeId} : h.parents[scope]? = some none → Line h scope [scope]
  | inside {scope parent : ScopeId} {line : List ScopeId} :
      h.parents[scope]? = some (some parent) → Line h parent line → Line h scope (scope :: line)

/-- The first of some scopes that a name is ever set in. -/
def nearest? (h : History) (line : List ScopeId) (name : String) : Option ScopeId :=
  line.find? fun scope => decide (name ∈ Bindings.names (h.settings scope))

/-! ## One more operation -/

theorem store_concat (h : History) (op : Operation) : store (h ++ [op]) = op.perform h.store := by
  rw [store, List.foldl_append]
  rfl

theorem parents_concat (h : History) (op : Operation) :
    parents (h ++ [op]) = h.parents ++ op.made?.toList := by
  rw [parents, List.filterMap_append]
  cases hop : op.made? <;> simp [parents, hop]

theorem settings_concat (h : History) (op : Operation) (scope : ScopeId) :
    settings (h ++ [op]) scope = h.settings scope ++ (op.setting? scope).toList := by
  rw [settings, List.filterMap_append]
  cases hop : op.setting? scope <;> simp [settings, hop]

/-! ## Scopes and what they bind -/

variable {h : History}

/-- There are as many scopes as were made. -/
theorem size_store (h : History) : h.store.scopes.size = h.parents.length := by
  induction h using List.reverseRecOn with
  | nil => rfl
  | append_singleton h op ih =>
    rw [store_concat, parents_concat, List.length_append, ← ih]
    cases op with
    | new => exact size_push _ _
    | child parent => exact size_addChild _ _
    | set scope name value => exact size_bind _ _ _ _

/-- The parent of one more scope, and of the scopes before it. -/
theorem join_getElem?_concat (parents : List (Option ScopeId)) (parent : Option ScopeId)
    (scope : Nat) :
    (parents ++ [parent])[scope]?.join =
      if scope = parents.length then parent else parents[scope]?.join := by
  rcases Nat.lt_trichotomy scope parents.length with hlt | rfl | hgt
  · rw [List.getElem?_append_left hlt, if_neg (Nat.ne_of_lt hlt)]
  · simp
  · rw [if_neg (Nat.ne_of_gt hgt), List.getElem?_eq_none (Nat.le_of_lt hgt),
      List.getElem?_eq_none (by rw [List.length_append]; exact hgt)]

/-- The parent of a scope is the one that it was made in. -/
theorem parent?_store (hh : OnScopesMade h) (scope : ScopeId) :
    h.store.parent? scope = h.parents[scope]?.join := by
  induction hh with
  | start => rfl
  | @further h op _ hop ih =>
    rw [store_concat, parents_concat]
    cases op with
    | new =>
      show h.store.addRoot.1.parent? scope = (h.parents ++ [none])[scope]?.join
      rw [join_getElem?_concat, parent?_addRoot, ih, size_store]
    | child parent =>
      show (h.store.addChild parent).1.parent? scope = (h.parents ++ [some parent])[scope]?.join
      have hparent : parent < h.parents.length := hop parent rfl
      rw [join_getElem?_concat, parent?_addChild, ih, size_store, if_pos hparent]
    | set other name value =>
      show (h.store.bind other name value).parent? scope = (h.parents ++ [])[scope]?.join
      rw [parent?_bind, List.append_nil, ih]

/-- A scope binds what was set in it. -/
theorem bindings_store (hh : OnScopesMade h) (scope : ScopeId) :
    h.store.bindings scope = Bindings.ofSettings (h.settings scope) := by
  induction hh with
  | start => exact bindings_of_le (Nat.zero_le scope)
  | @further h op _ hop ih =>
    rw [store_concat, settings_concat]
    cases op with
    | new =>
      show h.store.addRoot.1.bindings scope = Bindings.ofSettings (h.settings scope ++ [])
      rw [addRoot, bindings_push, List.append_nil, ih]
    | child parent =>
      show (h.store.addChild parent).1.bindings scope = Bindings.ofSettings (h.settings scope ++ [])
      rw [bindings_addChild, List.append_nil, ih]
    | set other name value =>
      show (h.store.bind other name value).bindings scope = _
      by_cases ho : other = scope
      · subst ho
        have hlt : other < h.store.scopes.size := size_store h ▸ hop other rfl
        simp only [Operation.setting?, if_true, Option.toList]
        rw [bindings_bind_self _ hlt, ih, Bindings.ofSettings_concat]
      · simp only [Operation.setting?, if_neg ho, Option.toList, List.append_nil]
        rw [bindings_bind_of_ne _ ho, ih]

/-- A name has a value in a scope if it was ever set there. -/
theorem isSome_latest? (h : History) (scope : ScopeId) (name : String) :
    (h.latest? scope name).isSome = decide (name ∈ Bindings.names (h.settings scope)) := by
  rw [latest?, Bool.eq_iff_iff, List.lookup_isSome_iff, decide_eq_true_iff, Bindings.names,
    List.mem_map]
  constructor
  · rintro ⟨setting, hm, hname⟩
    exact ⟨setting, List.mem_reverse.mp hm, (beq_iff_eq.mp hname).symm⟩
  · rintro ⟨setting, hm, rfl⟩
    exact ⟨setting, List.mem_reverse.mpr hm, beq_self_eq_true _⟩

/-! ## The walk outwards -/

/-- **The walk arrives.**  It is a line: it ends at a root. -/
theorem line_outwards (hh : OnScopesMade h) {scope : Nat} (hs : scope < h.parents.length) :
    h.Line scope (h.store.outwards scope) := by
  induction scope using Nat.strongRecOn with
  | _ scope ih =>
    have hparent := parent?_store hh scope
    rw [List.getElem?_eq_getElem hs] at hparent
    rw [outwards_eq, hparent]
    cases hp : h.parents[scope] with
    | none => exact .root (by rw [List.getElem?_eq_getElem hs, hp])
    | some parent =>
      rw [hp] at hparent
      have hlt : parent < scope := parent?_lt hparent
      exact .inside (by rw [List.getElem?_eq_getElem hs, hp]) (ih parent hlt (Nat.lt_trans hlt hs))

/-- There is one line from a scope. -/
theorem Line.unique {scope : ScopeId} {line other : List ScopeId} (hl : h.Line scope line)
    (ho : h.Line scope other) : line = other := by
  induction hl generalizing other with
  | root hr =>
    cases ho with
    | root => rfl
    | inside hp => rw [hr] at hp; cases hp
  | inside hp _ ih =>
    cases ho with
    | root hr => rw [hp] at hr; cases hr
    | inside hq hline =>
      rw [hp] at hq
      cases hq
      rw [ih hline]

/-- A line is a matter of the parents. -/
theorem Line.congr {h' : History} (hp : h'.parents = h.parents) {scope : ScopeId}
    {line : List ScopeId} (hl : h.Line scope line) : h'.Line scope line := by
  induction hl with
  | root hr => exact .root (hp ▸ hr)
  | inside hq _ ih => exact .inside (hp ▸ hq) ih

/-! ## Looking up a name -/

/-- The first result of a function on a list is its result on the first element that has one. -/
theorem findSome?_eq_find?_bind (f : ScopeId → Option Value) (line : List ScopeId) :
    line.findSome? f = (line.find? fun scope => (f scope).isSome).bind f := by
  induction line with
  | nil => rfl
  | cons scope line ih =>
    rw [List.findSome?_cons, List.find?_cons]
    cases hf : f scope with
    | none => simpa using ih
    | some v => simp [hf]

/-- A result on an element that is not the first to have one does not matter. -/
theorem findSome?_congr_of_find?_ne {f g : ScopeId → Option Value} {target : ScopeId}
    (hfg : ∀ scope, scope ≠ target → f scope = g scope) (ht : (f target).isSome = true)
    {line : List ScopeId} (hl : line.find? (fun scope => (f scope).isSome) ≠ some target) :
    line.findSome? f = line.findSome? g := by
  induction line with
  | nil => rfl
  | cons scope line ih =>
    rw [List.find?_cons] at hl
    rw [List.findSome?_cons, List.findSome?_cons]
    cases hf : f scope with
    | some v =>
      have hne : scope ≠ target := by simpa [hf] using hl
      rw [← hfg scope hne, hf]
    | none =>
      have hne : scope ≠ target := by
        rintro rfl
        simp [hf] at ht
      rw [← hfg scope hne, hf]
      exact ih (by simpa [hf] using hl)

theorem nearest?_eq (h : History) (line : List ScopeId) (name : String) :
    h.nearest? line name = line.find? fun scope => (h.latest? scope name).isSome := by
  simp only [nearest?, isSome_latest?]

/-- A name has the value that it was set to last in some scope of the line. -/
theorem get?_store_eq_findSome? (hh : OnScopesMade h) {scope : ScopeId} {line : List ScopeId}
    (hl : h.Line scope line) (name : String) :
    h.store.get? scope name = line.findSome? fun id => h.latest? id name := by
  have hs : scope < h.parents.length := by
    cases hl with
    | root hr => exact (List.getElem?_eq_some_iff.mp hr).1
    | inside hp _ => exact (List.getElem?_eq_some_iff.mp hp).1
  rw [get?, (line_outwards hh hs).unique hl]
  congr 1
  funext id
  rw [bindings_store hh, Bindings.lookup_ofSettings]
  rfl

/-- **A name has the value that it was set to last in the nearest scope that it was ever set
in.** -/
theorem get?_store (hh : OnScopesMade h) {scope : ScopeId} {line : List ScopeId}
    (hl : h.Line scope line) (name : String) :
    h.store.get? scope name = (h.nearest? line name).bind fun id => h.latest? id name := by
  rw [get?_store_eq_findSome? hh hl, findSome?_eq_find?_bind, nearest?_eq]

/-! ## One more setting -/

section Setting

variable (h) (target : ScopeId) (other : String) (value : Value)

theorem latest?_set_self : latest? (h ++ [.set target other value]) target other = some value := by
  rw [latest?, settings_concat]
  simp [Operation.setting?]

theorem latest?_set_of_ne {scope : ScopeId} {name : String} (hne : scope ≠ target ∨ name ≠ other) :
    latest? (h ++ [.set target other value]) scope name = h.latest? scope name := by
  rw [latest?, settings_concat]
  by_cases hs : target = scope
  · have hname : (name == other) = false := by simpa using hne.resolve_left (absurd hs.symm)
    simp [Operation.setting?, hs, latest?, List.lookup_cons, hname]
  · simp [Operation.setting?, hs, latest?]

end Setting

/-- A setting changes the value of its name where its scope is the nearest that the name was
ever set in, and nothing else. -/
theorem get?_store_set (hh : OnScopesMade h) {scope : ScopeId} {line : List ScopeId}
    (hl : h.Line scope line) {target : ScopeId} (ht : target < h.parents.length) (other : String)
    (value : Value) (name : String) :
    (store (h ++ [.set target other value])).get? scope name =
      if name = other ∧ nearest? (h ++ [.set target other value]) line name = some target then
        some value
      else h.store.get? scope name := by
  have hh' : OnScopesMade (h ++ [.set target other value]) := hh.further fun id hid => by
    cases hid
    exact ht
  have hparents : parents (h ++ [.set target other value]) = h.parents := by
    rw [parents_concat]
    exact List.append_nil _
  have hl' := hl.congr hparents
  split
  next hc =>
    obtain ⟨rfl, hn⟩ := hc
    rw [get?_store hh' hl', hn]
    exact latest?_set_self h target name value
  next hc =>
    rw [get?_store_eq_findSome? hh' hl', get?_store_eq_findSome? hh hl]
    by_cases hname : name = other
    · subst hname
      rw [nearest?_eq] at hc
      have hself : (latest? (h ++ [.set target name value]) target name).isSome = true := by
        rw [latest?_set_self]
        rfl
      exact findSome?_congr_of_find?_ne
        (fun id hid => latest?_set_of_ne h target name value (Or.inl hid)) hself
        fun hn => hc ⟨rfl, hn⟩
    · congr 1
      funext id
      exact latest?_set_of_ne h target other value (Or.inr hname)

/-- **Scopes are a shadowing store.**  Take any history of operations on scopes that were made
before, and any of the scopes afterwards.  Every scope has the parent that it was made in, and
following parents from the scope ends at a root, after as many steps as the scope is deep.  A
name has there the value of its latest setting in the nearest scope on the way that it was ever
set in; if there is none, it has no value.  It is contained where it has a value.  The names of
the scope itself stand in the order in which they were set first.

One more setting changes the value of its own name only, and only from where its scope is then
the nearest that the name was ever set in. -/
theorem scopes_shadow (hh : OnScopesMade h) {scope : ScopeId} (hs : scope < h.parents.length) :
    (∀ id, h.store.parent? id = h.parents[id]?.join) ∧
    ∃ line, h.Line scope line ∧ line.length = h.store.depth scope + 1 ∧
      (∀ name, h.store.get? scope name = (h.nearest? line name).bind (h.latest? · name) ∧
        h.store.contains scope name = (h.store.get? scope name).isSome) ∧
      h.store.names scope = (Bindings.names (h.settings scope)).eraseDups ∧
      ∀ target other value, target < h.parents.length → ∀ name,
        (store (h ++ [.set target other value])).get? scope name =
          if name = other ∧ nearest? (h ++ [.set target other value]) line name = some target then
            some value
          else h.store.get? scope name := by
  have hl := line_outwards hh hs
  refine ⟨parent?_store hh, _, hl, ?_, fun name => ⟨get?_store hh hl name, rfl⟩, ?_, ?_⟩
  · rw [depth, outwards_eq]
    rfl
  · rw [names, bindings_store hh, Bindings.names_ofSettings]
  · exact fun target other value ht name => get?_store_set hh hl ht other value name

/-- A name that is set in a root before and after another value is set for it between the two:
the scope inside the other one finds the latest of the nearest. -/
theorem scopes_shadow_rebound :
    let truth := Value.boolean (Range.point Position.origin)
    let h : History := [.new, .child 0, .child 1, .set 0 "ㄱ" (truth true),
      .set 1 "ㄱ" (truth true), .set 0 "ㄴ" (truth true), .set 1 "ㄱ" (truth false)]
    OnScopesMade h ∧ 2 < h.parents.length ∧
      ∃ line, h.Line 2 line ∧ line.length = h.store.depth 2 + 1 ∧
        h.store.get? 2 "ㄱ" = (h.nearest? line "ㄱ").bind (h.latest? · "ㄱ") ∧
        (store (h ++ [.set 0 "ㄱ" (truth true)])).get? 2 "ㄱ" =
          if "ㄱ" = "ㄱ" ∧ nearest? (h ++ [.set 0 "ㄱ" (truth true)]) line "ㄱ" = some 0 then
            some (truth true)
          else h.store.get? 2 "ㄱ" := by
  intro truth h
  have further : ∀ (h : History) (op : Operation),
      (op.scope?.all fun scope => decide (scope < h.parents.length)) = true →
        OnScopesMade h → OnScopesMade (h ++ [op]) := by
    intro h op hop hh
    refine hh.further fun scope hs => ?_
    rw [hs] at hop
    exact of_decide_eq_true hop
  have hscopes : OnScopesMade [.new, .child 0, .child 1] :=
    further [.new, .child 0] _ rfl (further [.new] _ rfl (further [] _ rfl .start))
  have hh : OnScopesMade h :=
    further (h.take 6) _ rfl <| further (h.take 5) _ rfl <| further (h.take 4) _ rfl <|
      further (h.take 3) _ rfl hscopes
  have hs : 2 < h.parents.length := by decide
  obtain ⟨-, line, hl, hdepth, hget, -, hset⟩ := scopes_shadow hh hs
  exact ⟨hh, hs, line, hl, hdepth, (hget "ㄱ").1, hset 0 "ㄱ" (truth true) (by decide) "ㄱ"⟩

end History
end Store
end HangulScript
