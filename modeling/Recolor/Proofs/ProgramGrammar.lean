import Recolor.Proofs.Checked

/-!
# The grammar of programs

`Program.Spelled lengths ts p` is the grammar of programs without a parser: the kinds of tokens `ts`
spell the statements of `p`, with all blocks and assignments of its rules, if `lengths` are known in
front of them. It stands on the grammar of expressions.

Which lengths are in scope at an expression is part of the grammar. They pass from assignment to
assignment (`Assignment.after`), both between statements and inside a block. All blocks of a rule
start with the lengths in front of the rule, and those are in scope behind it again.
-/

set_option autoImplicit false

namespace Recolor

/-! ## Assignments -/

/-- The operator of a sign that assigns to a variable what the operator makes of its old value. -/
def Symbol.compound? : Symbol → Option Arithmetic
  | .addAssign => some .add
  | .subAssign => some .sub
  | .mulAssign => some .mul
  | .divAssign => some .div
  | _ => none

/-- The kinds of tokens spell an assignment, which is compound in blocks only. The right side is
well shaped, and a vector exactly if the variable is one. -/
inductive Assignment.Spelled (lengths : Lengths) : Bool → List TokenKind → Assignment → Prop where
  | plain {inBlock : Bool} {x : Variable} {ts : List TokenKind} {e : Expr}
      (he : Derives .disjunction ts e) (hshape : e.WellShaped lengths)
      (hvector : (e.shape lengths).isVector = x.isVector) :
      Spelled lengths inBlock (.variable x :: .symbol .assign :: (ts ++ [.symbol .semicolon]))
        ⟨x, e⟩
  | compound {s : Symbol} {op : Arithmetic} {x : Variable} {ts : List TokenKind} {e : Expr}
      (hs : s.compound? = some op) (he : Derives .disjunction ts e)
      (hshape : (Expr.binary (.arithmetic op) (.variable x) e).WellShaped lengths)
      (hvector :
        ((Expr.binary (.arithmetic op) (.variable x) e).shape lengths).isVector = x.isVector) :
      Spelled lengths true (.variable x :: .symbol s :: (ts ++ [.symbol .semicolon]))
        ⟨x, .binary (.arithmetic op) (.variable x) e⟩

/-! ## Blocks and rules -/

/-- The kinds of tokens spell the assignments of a block. -/
inductive ActionBlock.Spelled : Lengths → List TokenKind → List Assignment → Prop where
  | nil {lengths : Lengths} : Spelled lengths [] []
  | cons {lengths : Lengths} {ts us : List TokenKind} {a : Assignment} {rest : List Assignment}
      (ha : a.Spelled lengths true ts) (hrest : Spelled (a.after lengths) us rest) :
      Spelled lengths (ts ++ us) (a :: rest)

namespace Rule

/-- The kinds of tokens spell blocks that start with `using`, none of which is empty. -/
inductive SpelledSections (lengths : Lengths) : List TokenKind → List ActionBlock → Prop where
  | nil : SpelledSections lengths [] []
  | cons {space : String} {ts us : List TokenKind} {statements : List Assignment}
      {more : List ActionBlock} (hstatements : ActionBlock.Spelled lengths ts statements)
      (hne : statements ≠ []) (hmore : SpelledSections lengths us more) :
      SpelledSections lengths
        (.keyword .usingWord :: .space space :: .symbol .colon :: (ts ++ us))
        (⟨space, statements⟩ :: more)

/-- The kinds of tokens spell the blocks of a rule on a space. Only the first block may go without
`using`, and acts in the space of the rule then. -/
inductive SpelledBlocks (lengths : Lengths) (space : String) :
    List TokenKind → List ActionBlock → Prop where
  | headed {ts : List TokenKind} {blocks : List ActionBlock}
      (hblocks : SpelledSections lengths ts blocks) : SpelledBlocks lengths space ts blocks
  | leading {ts us : List TokenKind} {statements : List Assignment} {more : List ActionBlock}
      (hstatements : ActionBlock.Spelled lengths ts statements) (hne : statements ≠ [])
      (hmore : SpelledSections lengths us more) :
      SpelledBlocks lengths space (ts ++ us) (⟨space, statements⟩ :: more)

/-- The kinds of tokens name the space of a rule, which is `rgb` if they are left out. -/
inductive SpelledSpace : List TokenKind → String → Prop where
  | named (space : String) : SpelledSpace [.space space] space
  | default : SpelledSpace [] "rgb"

/-- The kinds of tokens spell a rule. -/
inductive Spelled (lengths : Lengths) : List TokenKind → Rule → Prop where
  | intro {named ts us : List TokenKind} {space : String} {predicate : Expr}
      {blocks : List ActionBlock} (hspace : SpelledSpace named space)
      (hpredicate : Derives .disjunction ts predicate) (hshape : predicate.WellShaped lengths)
      (hblocks : SpelledBlocks lengths space us blocks) :
      Spelled lengths
        (.keyword .on :: (named ++ .keyword .pixels :: .keyword .having ::
          (ts ++ .keyword .doWord :: (us ++ [.keyword .endWord, .symbol .semicolon]))))
        ⟨space, predicate, blocks⟩

end Rule

/-! ## Programs -/

/-- The reserved word for a policy. -/
def AlphaPolicy.keyword : AlphaPolicy → Keyword
  | .require => .require
  | .allow => .allow
  | .forbid => .forbid

namespace Statement

/-- The kinds of tokens spell a statement. -/
inductive Spelled (lengths : Lengths) : List TokenKind → Statement → Prop where
  | assign {ts : List TokenKind} {a : Assignment} (ha : a.Spelled lengths false ts) :
      Spelled lengths ts (.assign a)
  | alpha (policy : AlphaPolicy) :
      Spelled lengths [.keyword .alpha, .keyword policy.keyword, .symbol .semicolon] (.alpha policy)
  | rule {ts : List TokenKind} {r : Rule} (hr : r.Spelled lengths ts) : Spelled lengths ts (.rule r)

/-- The lengths that are known behind the statement, which only assignments change. -/
def after (lengths : Lengths) : Statement → Lengths
  | .assign a => a.after lengths
  | .alpha _ | .rule _ => lengths

end Statement

/-- The kinds of tokens spell the statements of a program, one after another. -/
inductive Program.Spelled : Lengths → List TokenKind → Program → Prop where
  | nil {lengths : Lengths} : Spelled lengths [] []
  | cons {lengths : Lengths} {ts us : List TokenKind} {statement : Statement} {more : Program}
      (h : statement.Spelled lengths ts) (hmore : Spelled (statement.after lengths) us more) :
      Spelled lengths (ts ++ us) (statement :: more)

end Recolor
