import Recolor.Proofs.Placeless

/-!
# Programs do not depend on places

Statements, rules and programs are read alike from tokens of the same kinds: the productions that
they are made of agree, and what is remembered from statement to statement has the same lengths of
vectors. Only the spans of directives differ, which go into warnings.
-/

set_option autoImplicit false

namespace Recolor

variable {scope scope' : Scope} {t u : Token} {ts us : List Token}

/-! ## Assignments and directives -/

/-- A compound assignment is told by the kind of its sign. -/
theorem Assignment.compound?_eq (h : t.kind = u.kind) : compound? t = compound? u := by
  simp only [compound?, h]

/-- Assignments are read alike from tokens of the same kinds, whatever they assign. -/
theorem Assignment.agree_parse (hscope : scope.lengths = scope'.lengths) (inBlock : Bool)
    (h : SameKinds ts us) :
    Agree (SameRead Eq) (parse scope inBlock ts) (parse scope' inBlock us) := by
  cases h with
  | nil => exact .error (unplaced_endOfScript scope scope' _)
  | cons ht hrest =>
    cases hrest with
    | nil =>
      simp only [parse]
      rw [ht]
      split
      · exact .error (unplaced_endOfScript scope scope' _)
      · exact .error (unplaced_unexpected ht _)
    | cons hsign hrest =>
      simp only [parse]
      rw [ht, compound?_eq hsign]
      split
      next target =>
        split
        next => exact .error (unplaced_unexpected hsign _)
        next op? =>
          rw [hscope]
          split
          · exact .error (by simp only [Fault.unplaced, hsign])
          · refine (Expr.agree_parse hscope hrest).behind ?_
            intro operand after after' hless hless' hafter
            refine .step _ fun value => ?_
            refine (agree_expectSymbol scope scope' _ _ hafter).behind ?_
            intro _ final final' hfinal hfinal' hrest
            exact .step _ fun _ => .ok ⟨rfl, hrest⟩
      next => exact .error (unplaced_unexpected ht _)

/-- A policy is told by the kind of its keyword. -/
theorem AlphaPolicy.ofToken?_eq (h : t.kind = u.kind) : ofToken? t = ofToken? u := by
  simp only [ofToken?, h]

/-- A directive states the same policy, at another place. -/
theorem AlphaPolicy.agree_parse (first first' : Token) (h : SameKinds ts us) :
    Agree (SameRead fun x y => x.1 = y.1) (parse scope first ts) (parse scope' first' us) := by
  cases h with
  | nil => exact .error (unplaced_endOfScript scope scope' _)
  | cons ht hrest =>
    cases hrest with
    | nil =>
      simp only [parse]
      rw [ofToken?_eq ht]
      split
      · exact .error (unplaced_endOfScript scope scope' _)
      · exact .error (unplaced_unexpected ht _)
    | cons hclose hrest =>
      simp only [parse]
      rw [ofToken?_eq ht, hclose]
      split
      · split
        · exact .ok ⟨rfl, hrest⟩
        · exact .error (unplaced_unexpected hclose _)
      · exact .error (unplaced_unexpected ht _)

/-! ## Rules -/

/-- A keyword is expected alike of tokens of the same kinds. -/
theorem agree_expectKeyword (scope scope' : Scope) (k : Keyword) (h : SameKinds ts us) :
    Agree (SameRead Eq) (expectKeyword scope k ts) (expectKeyword scope' k us) := by
  cases h with
  | nil => exact .error (unplaced_endOfScript scope scope' _)
  | cons ht hrest =>
    simp only [expectKeyword]
    rw [ht]
    split
    · exact .ok ⟨rfl, hrest⟩
    · exact .error (unplaced_unexpected ht _)

/-- A space is named in both lists or in none. -/
theorem spaceName?_cases (h : SameKinds ts us) :
    (spaceName? ts = none ∧ spaceName? us = none) ∨
      ∃ name rest rest', spaceName? ts = some (name, rest) ∧ spaceName? us = some (name, rest') ∧
        SameKinds rest.val rest'.val := by
  cases h with
  | nil => exact .inl ⟨rfl, rfl⟩
  | cons ht hrest =>
    simp only [spaceName?]
    rw [ht]
    split
    · exact .inr ⟨_, _, _, rfl, rfl, hrest⟩
    · exact .inl ⟨rfl, rfl⟩

namespace Rule

/-- Whether a statement starts depends on the kinds of tokens. -/
theorem startsAssignment_eq (h : SameKinds ts us) : startsAssignment ts = startsAssignment us := by
  cases h with
  | nil => rfl
  | cons ht hrest => simp only [startsAssignment, ht]

/-- Whether a block ends depends on the kinds of tokens. -/
theorem endsBlock_eq (h : SameKinds ts us) : endsBlock ts = endsBlock us := by
  cases h with
  | nil => rfl
  | cons ht hrest => simp only [endsBlock, ht]

/-- The assignments of a block are read alike, each with the lengths behind those before it. -/
theorem agree_assignments {scope scope' : Scope} (hscope : scope.lengths = scope'.lengths)
    {ts us : List Token} (h : SameKinds ts us) :
    Agree (SameRead Eq) (assignments scope ts) (assignments scope' us) := by
  rw [assignments, assignments, startsAssignment_eq h]
  split
  · refine (Assignment.agree_parse hscope true h).behind ?_
    rintro ⟨a, lengths⟩ after after' hless hless' hafter
    have hnext : (⟨lengths, scope.finish⟩ : Scope).lengths =
        (⟨lengths, scope'.finish⟩ : Scope).lengths := rfl
    exact (agree_assignments hnext hafter).behind fun _ _ _ _ _ hfinal => .ok ⟨rfl, hfinal⟩
  · exact .ok ⟨rfl, h⟩
termination_by ts.length

/-- Blocks are read alike up to the end of the rule. -/
theorem agree_sections (hscope : scope.lengths = scope'.lengths) {ts us : List Token}
    (h : SameKinds ts us) : Agree (SameRead Eq) (sections scope ts) (sections scope' us) := by
  cases h with
  | nil =>
    rw [sections, sections]
    exact .error (unplaced_endOfScript scope scope' _)
  | cons ht hrest =>
    rw [sections, sections, ht]
    split
    · exact .ok ⟨rfl, hrest⟩
    · split
      · rcases spaceName?_cases hrest with
          ⟨hnone, hnone'⟩ | ⟨name, named, named', hname, hname', hnamed⟩
        · rw [hnone, hnone']
          exact .error rfl
        · rw [hname, hname']
          refine (agree_expectSymbol scope scope' _ _ hnamed).behind ?_
          intro _ opened opened' hopened hopened' hopen
          refine (agree_assignments hscope hopen).behind ?_
          intro statements after after' hle hle' hafter
          dsimp only
          rw [endsBlock_eq hafter]
          split
          · exact .error rfl
          · exact (agree_sections hscope hafter).behind fun _ _ _ _ _ hfinal => .ok ⟨rfl, hfinal⟩
      · exact .error (unplaced_unexpected ht _)
termination_by ts.length

/-- The space of a rule is the same, also where it is left out. -/
theorem sameRead_optionalSpace (h : SameKinds ts us) :
    SameRead Eq (optionalSpace ts) (optionalSpace us) := by
  rw [optionalSpace, optionalSpace]
  rcases spaceName?_cases h with ⟨hnone, hnone'⟩ | ⟨name, named, named', hname, hname', hnamed⟩
  · rw [hnone, hnone']
    exact ⟨rfl, h⟩
  · rw [hname, hname']
    exact ⟨rfl, hnamed⟩

/-- Rules are read alike from tokens of the same kinds, in scopes of the same lengths. -/
theorem agree_parse (hscope : scope.lengths = scope'.lengths) (h : SameKinds ts us) :
    Agree (SameRead Eq) (parse scope ts) (parse scope' us) := by
  have hspace := sameRead_optionalSpace h
  rw [parse, parse]
  generalize optionalSpace ts = named at *
  generalize optionalSpace us = named' at *
  obtain ⟨rfl, hnamed⟩ := hspace
  refine (agree_expectKeyword scope scope' _ hnamed).behind ?_
  intro _ second second' h₂ h₂' hsecond
  refine (agree_expectKeyword scope scope' _ hsecond).behind ?_
  intro _ third third' h₃ h₃' hthird
  refine (Expr.agree_parse hscope hthird).behind ?_
  intro predicate fourth fourth' h₄ h₄' hfourth
  refine (agree_expectKeyword scope scope' _ hfourth).behind ?_
  intro _ body body' h₅ h₅' hbody
  refine (agree_assignments hscope hbody).behind ?_
  intro leading rest rest' h₆ h₆' hrest
  refine (agree_sections hscope hrest).behind ?_
  intro more closed closed' h₇ h₇' hclosed
  exact (agree_expectSymbol scope scope' _ _ hclosed).behind fun _ _ _ _ _ hfinal =>
    .ok ⟨rfl, hfinal⟩

end Rule

/-! ## Programs -/

/-- Statements are read alike where the same lengths are known, and leave the same lengths. -/
theorem Statement.agree_parse (finish finish' : Location) {s s' : ReadState}
    (hs : s.lengths = s'.lengths) (h : SameKinds ts us) :
    Agree (SameRead fun x y => x.1 = y.1 ∧ x.2.lengths = y.2.lengths) (parse finish s ts)
      (parse finish' s' us) := by
  cases h with
  | nil => exact .error rfl
  | cons ht hrest =>
    simp only [parse]
    rw [ht]
    split
    next =>
      refine (Assignment.agree_parse hs false (.cons ht hrest)).behind ?_
      rintro ⟨a, lengths⟩ final final' hfinal hfinal' hkinds
      exact .ok ⟨⟨rfl, rfl⟩, hkinds⟩
    next =>
      refine (AlphaPolicy.agree_parse _ _ hrest).bind ?_
      rintro ⟨⟨policy, span⟩, final, hfinal⟩ ⟨⟨_, span'⟩, final', hfinal'⟩ ⟨rfl, hkinds⟩
      exact .ok ⟨⟨rfl, hs⟩, hkinds⟩
    next =>
      refine (Rule.agree_parse hs hrest).behind ?_
      intro r final final' hfinal hfinal' hkinds
      exact .ok ⟨⟨rfl, hs⟩, hkinds⟩
    next => exact .error (unplaced_unexpected ht _)

namespace Program

/-- Programs are read alike from tokens of the same kinds, from states of the same lengths. -/
theorem agree_parseFrom (finish finish' : Location) {s s' : ReadState}
    (hs : s.lengths = s'.lengths) {ts us : List Token} (h : SameKinds ts us) :
    Agree (fun x y => x.1 = y.1) (parseFrom finish s ts) (parseFrom finish' s' us) := by
  induction hk : ts.length using Nat.strongRecOn generalizing s s' ts us with
  | ind k ih =>
    cases h with
    | nil =>
      rw [parseFrom, parseFrom]
      exact .ok rfl
    | cons ht hrest =>
      rw [parseFrom, parseFrom]
      refine (Statement.agree_parse finish finish' hs (.cons ht hrest)).bind ?_
      rintro ⟨⟨statement, next⟩, after, hless⟩ ⟨⟨_, next'⟩, after', hless'⟩ ⟨⟨rfl, hnext⟩, hafter⟩
      refine (ih after.length (hk ▸ hless) hnext hafter rfl).bind ?_
      rintro ⟨more, final⟩ ⟨_, final'⟩ rfl
      exact .ok rfl

/-- Programs are read alike from tokens of the same kinds. -/
theorem agree_parse (h : SameKinds ts us) (lengths : Lengths) :
    Agree (fun x y => x.1 = y.1) (parse ts lengths) (parse us lengths) := by
  refine (agree_parseFrom (endLocation ts) (endLocation us) rfl h).bind ?_
  rintro ⟨program, final⟩ ⟨_, final'⟩ rfl
  exact .ok rfl

end Program

end Recolor
