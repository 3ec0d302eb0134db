import Recolor.CompiledScript
import Recolor.Proofs.Outcome

/-!
# Strict and lenient reading

A script is read leniently, so that what is no token is skipped with a diagnostic, or strictly, so
that the first such piece is a fault. Both run through the same items: the fault is that of the
first diagnostic that lenient reading collects, and without one the tokens are the same
(`strictTokens_eq`). Nothing behind the lexer knows how a script was read, so scripts without
diagnostics on their text compile alike.
-/

set_option autoImplicit false

namespace Recolor

/-- Strict reading answers the tokens that lenient reading collects, unless it collects a
diagnostic too. -/
theorem strictTokens_eq (items : List ScriptItem) :
    strictTokens items =
      match (Lexed.ofItems items).diagnostics with
      | [] => .ok (Lexed.ofItems items).tokens
      | d :: _ => .error d.fault := by
  induction items with
  | nil => rfl
  | cons i items ih =>
    cases i with
    | error d => rfl
    | ok t =>
      -- a token changes neither whether there is a diagnostic nor which one is the first
      rw [strictTokens, ih, Lexed.ofItems]
      cases (Lexed.ofItems items).diagnostics <;> rfl

namespace CompiledScript

/-- Reading the tokens strictly fails on the first diagnostic, and without one does the same as
reading them otherwise. -/
theorem readTokens_strict (source : String) :
    readTokens source true =
      match (tokenize source).diagnostics with
      | [] => readTokens source false
      | d :: _ => .error d.fault := by
  rw [readTokens, if_pos rfl, tokenizeStrict, strictTokens_eq, ← tokenize]
  split
  next hnone =>
    rw [readTokens, if_neg Bool.false_ne_true, map_ok, ← hnone]
  next => rfl

/-- A script that is compiled strictly fails with the first diagnostic on its text: with its
message, the place where its span starts, and its advice. Without any diagnostic on the text it
makes no difference whether it is compiled strictly: the answer is the same script, with the same
mapper, policy, variables and diagnostics, or the same fault. -/
theorem compile_strict (source : String) (registry : Registry) (config : Config) :
    compile source registry { config with strictLexing := true } =
      match (tokenize source).diagnostics with
      | [] => compile source registry { config with strictLexing := false }
      | d :: _ => .error (.lexical d.message d.span.start d.help) := by
  rw [compile, readTokens_strict]
  split
  next => rfl
  next d _ _ => rfl

/-- Of two pieces that are no tokens, the first is the one that strict compiling fails at. -/
example :
    (match compile "$a = 1 ?; wat" .standard { strictLexing := true } with
      | .error (.lexical cause location advice) =>
        cause == "Illegal character '?'" && location == ⟨7, 1, 8⟩ && advice.isNone
      | _ => false) = true := by
  decide +kernel

end CompiledScript

end Recolor
