import Recolor.Proofs.Evaluation

/-!
# The lengths of the vectors that can be seen

A variable is looked up from the innermost scope outwards, up to the first scope that binds it. The
table of lengths is collected the other way, from the outermost scope inwards, and entries of inner
scopes replace those of outer ones. Both find the same vectors (`Collected.get?`): what one more
scope adds to the table is what it hides from lookup (`get?_addLengths`).

The vectors of a scope may be visited in any order. For the table to be the same nevertheless, a
scope must bind each name once only. This holds of the empty environment, and no step breaks it:
neither a new scope, nor assignments of which one fails and leaves behind what those before it have
bound (`Environment.Reached.distinct`).
-/

set_option autoImplicit false

namespace Recolor

/-! ## Scopes bind each name once -/

/-- Each name stands at most once among the variables of either sort. -/
structure Layer.Distinct (scope : Layer) : Prop where
  scalars : scope.scalars.Distinct
  vectors : scope.vectors.Distinct

/-- A scope without variables binds none twice. -/
theorem Layer.distinct_empty : Layer.Distinct {} := ⟨Bindings.distinct_nil, Bindings.distinct_nil⟩

namespace Environment

variable {env next : Environment}

/-- Each scope binds each name at most once. -/
def Distinct (env : Environment) : Prop := ∀ scope ∈ env.layers, scope.Distinct

/-- The innermost scope and each of the others bind each name once. -/
theorem distinct_iff :
    env.Distinct ↔ env.inner.Distinct ∧ ∀ scope ∈ env.outer, scope.Distinct :=
  List.forall_mem_cons

/-- Without variables no name is bound twice. -/
theorem distinct_empty : empty.Distinct := by
  refine distinct_iff.2 ⟨Layer.distinct_empty, ?_⟩
  intro scope hscope
  cases hscope

/-- A new scope binds nothing. -/
theorem Distinct.child (h : env.Distinct) : env.child.Distinct :=
  distinct_iff.2 ⟨Layer.distinct_empty, h⟩

/-- The innermost scope binds each name once. -/
theorem Distinct.inner (h : env.Distinct) : env.inner.Distinct := (distinct_iff.1 h).1

/-- Binding a variable and taking one out change the innermost scope only. -/
theorem Distinct.withInner (h : env.Distinct) {scope : Layer} (hscope : scope.Distinct) :
    Distinct { env with inner := scope } :=
  distinct_iff.2 ⟨hscope, (distinct_iff.1 h).2⟩

/-- Binding a variable replaces the one of that name. -/
theorem Distinct.bind (h : env.Distinct) (name : String) (value : Value) :
    (env.bind name value).Distinct :=
  h.withInner ⟨h.inner.scalars.insert name value, h.inner.vectors⟩

/-- Binding a vector replaces the one of that name. -/
theorem Distinct.bindVector (h : env.Distinct) (name : String) (items : List Number) :
    (env.bindVector name items).Distinct :=
  h.withInner ⟨h.inner.scalars, h.inner.vectors.insert name items⟩

/-- Taking a variable out leaves the others. -/
theorem Distinct.take (h : env.Distinct) (name : String) : (env.take name).2.Distinct :=
  h.withInner ⟨h.inner.scalars.erase name, h.inner.vectors⟩

/-- An assignment leaves scopes behind that bind each name once. -/
theorem Distinct.run {a : Assignment} (h : env.Distinct) (hrun : a.run env = .ok next) :
    next.Distinct := by
  rcases Assignment.cases_of_run hrun with ⟨name, items, -, -, rfl⟩ | ⟨name, v, -, -, -, rfl⟩
  · exact h.bindVector name items
  · exact h.bind name v

/-- Assignments leave scopes behind that bind each name once, also where one of them fails. -/
theorem Distinct.execute (h : env.Distinct) (statements : List Assignment) :
    (executeUntilFault statements env).1.Distinct := by
  induction statements generalizing env with
  | nil => exact h
  | cons a rest ih =>
    unfold executeUntilFault
    cases hrun : a.run env with
    | ok next => exact ih (h.run hrun)
    | error fault => exact h

/-- The environments that any sequence of steps leads to: to bind a variable, to take one out, to
run assignments, whether or not one of them fails, and to open a scope. -/
inductive Reached : Environment → Prop where
  | empty : Reached .empty
  | bind {env : Environment} (h : Reached env) (name : String) (value : Value) :
    Reached (env.bind name value)
  | bindVector {env : Environment} (h : Reached env) (name : String) (items : List Number) :
    Reached (env.bindVector name items)
  | take {env : Environment} (h : Reached env) (name : String) : Reached (env.take name).2
  | execute {env : Environment} (h : Reached env) (statements : List Assignment) :
    Reached (executeUntilFault statements env).1
  | child {env : Environment} (h : Reached env) : Reached env.child

/-- The whole run: however an environment came about, its scopes bind each name once. -/
theorem Reached.distinct (h : env.Reached) : env.Distinct := by
  induction h with
  | empty => exact distinct_empty
  | bind _ name value ih => exact ih.bind name value
  | bindVector _ name items ih => exact ih.bindVector name items
  | take _ name ih => exact ih.take name
  | execute _ statements ih => exact ih.execute statements
  | child _ ih => exact ih.child

/-! ## Collecting lengths -/

/-- What a scope adds to a table hides what the table had for the names that the scope binds. -/
theorem get?_addLengths (scope : Bindings (List Number)) (known : Lengths) (name : String) :
    (addLengths scope known).get? name =
      ((scope.get? name).map List.length).or (known.get? name) := by
  induction scope with
  | nil => rfl
  | cons b rest ih =>
    obtain ⟨key, items⟩ := b
    have hstep : addLengths ((key, items) :: rest) known =
        (addLengths rest known).insert key items.length := rfl
    rw [hstep, Bindings.get?_insert, ih, Bindings.get?]
    by_cases h : key = name
    · rw [if_pos h, if_pos h.symm]
      rfl
    · rw [if_neg h, if_neg fun heq => h heq.symm]

/-- A table of lengths that has each name once still does with the vectors of a scope added. -/
theorem distinct_addLengths (scope : Bindings (List Number)) {known : Lengths}
    (h : known.Distinct) : (addLengths scope known).Distinct := by
  induction scope with
  | nil => exact h
  | cons b rest ih => exact ih.insert b.1 b.2.length

/-- Tables of the lengths in scopes, of which the first is the innermost. The outer scopes come
first, and the vectors of each scope are visited in any order. -/
inductive Collected : List Layer → Lengths → Prop where
  | none : Collected [] []
  | scope {outer : List Layer} {known : Lengths} (inner : Layer)
      {visited : Bindings (List Number)} :
    Collected outer known → visited.Perm inner.vectors →
      Collected (inner :: outer) (addLengths visited known)

variable {scopes : List Layer} {lengths other : Lengths}

/-- Visiting the vectors of each scope as they stand makes a table of lengths. -/
theorem collected_foldr (scopes : List Layer) :
    Collected scopes (scopes.foldr (fun layer lengths => addLengths layer.vectors lengths) []) := by
  induction scopes with
  | nil => exact .none
  | cons inner outer ih => exact .scope inner ih (.refl inner.vectors)

/-- The lengths that an environment answers are such a table. -/
theorem collected_vectorLengths (env : Environment) : Collected env.layers env.vectorLengths :=
  collected_foldr env.layers

/-- A table of lengths has each name once. -/
theorem Collected.distinct (h : Collected scopes lengths) : lengths.Distinct := by
  induction h with
  | none => exact Bindings.distinct_nil
  | scope inner _ _ ih => exact distinct_addLengths _ ih

/-- A table has the length of the vector in the innermost scope that binds one. -/
theorem Collected.get? (h : Collected scopes lengths) (hscopes : ∀ scope ∈ scopes, scope.Distinct)
    (name : String) :
    lengths.get? name = (scopes.findSome? (·.vectors.get? name)).map List.length := by
  induction h with
  | none => rfl
  | scope inner _ hvisited ih =>
    have hinner : inner.Distinct := hscopes inner List.mem_cons_self
    have houter := ih fun scope hscope => hscopes scope (List.mem_cons_of_mem _ hscope)
    rw [get?_addLengths, hinner.vectors.get?_of_perm hvisited, houter, List.findSome?_cons]
    cases inner.vectors.get? name with
    | none => rfl
    | some items => rfl

/-- A table lists the vectors that lookup finds, with the numbers of their items. -/
theorem Collected.mem_iff (h : Collected env.layers lengths) (henv : env.Distinct)
    {name : String} {n : Nat} :
    (name, n) ∈ lengths ↔ ∃ items, env.vector? name = some items ∧ items.length = n := by
  rw [← h.distinct.get?_eq_some_iff, h.get? henv, Option.map_eq_some_iff]
  rfl

/-- Tables of the same scopes differ in the order of their entries only. -/
theorem Collected.perm (h : Collected env.layers lengths) (hother : Collected env.layers other)
    (henv : env.Distinct) : lengths.Perm other := by
  rw [List.perm_ext_iff_of_nodup h.distinct.nodup hother.distinct.nodup]
  rintro ⟨name, n⟩
  rw [h.mem_iff henv, hother.mem_iff henv]

/-- In every environment that steps lead to, the table of lengths lists each name at most once, and
lists it with a length exactly if lookup finds a vector of that length. This does not depend on the
order in which the vectors of a scope are visited: any order gives the same entries. -/
theorem vectorLengths_visible (h : env.Reached) :
    env.vectorLengths.Distinct ∧
    (∀ name n, (name, n) ∈ env.vectorLengths ↔
      ∃ items, env.vector? name = some items ∧ items.length = n) ∧
    ∀ lengths, Collected env.layers lengths → lengths.Perm env.vectorLengths := by
  have hcollected : Collected env.layers env.vectorLengths := collected_vectorLengths env
  refine ⟨hcollected.distinct, fun name n => hcollected.mem_iff h.distinct, fun lengths hl => ?_⟩
  exact hl.perm hcollected h.distinct

/-- Three global vectors, and a scope in which assignments give one of them another length before
one of them fails. The innermost scope takes out a variable that it does not have. -/
def layered : Environment :=
  let globals := ((empty.bindVector "v" [1, 2]).bindVector "w" [3]).bindVector "x" [4, 5]
  let statements : List Assignment :=
    [⟨.vector "v", .vector [.number 1, .number 2, .number 3]⟩,
      ⟨.scalar "a", .variable (.vector "v")⟩]
  ((executeUntilFault statements globals.child).1.child.take "a").2

/-- The table lists the three items of the inner `$$v`, and the other global vectors, also if the
global vectors are visited in the opposite order. -/
theorem vectorLengths_visible_layered :
    layered.Reached ∧ layered.layers.length = 3 ∧ layered.vector? "v" = some [1, 2, 3] ∧
      ("v", 3) ∈ layered.vectorLengths ∧ ("v", 2) ∉ layered.vectorLengths ∧
      Collected layered.layers [("v", 3), ("w", 1), ("x", 2)] ∧
      [("v", 3), ("w", 1), ("x", 2)].Perm layered.vectorLengths := by
  have hglobals := ((Reached.empty.bindVector "v" [1, 2]).bindVector "w" [3]).bindVector "x" [4, 5]
  have hreached : layered.Reached := ((hglobals.child.execute _).child).take "a"
  have hv : layered.vector? "v" = some [1, 2, 3] := rfl
  obtain ⟨-, hmem, hperm⟩ := vectorLengths_visible hreached
  have houter : Collected [⟨[], [("x", [4, 5]), ("w", [3]), ("v", [1, 2])]⟩]
      (addLengths [("v", [1, 2]), ("w", [3]), ("x", [4, 5])] []) :=
    .scope _ .none (List.reverse_perm [("x", [4, 5]), ("w", [3]), ("v", [1, 2])])
  have hlocal : Collected layered.outer (addLengths [("v", [1, 2, 3])] _) :=
    .scope _ houter (.refl _)
  have hother : Collected layered.layers (addLengths [] _) := .scope _ hlocal (.refl _)
  refine ⟨hreached, rfl, hv, (hmem "v" 3).2 ⟨_, hv, rfl⟩, fun h => ?_, hother, hperm _ hother⟩
  obtain ⟨items, hitems, hlength⟩ := (hmem "v" 2).1 h
  cases hv.symm.trans hitems
  cases hlength

end Environment

end Recolor
