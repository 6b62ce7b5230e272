import BatchShell.Wildcard

/-!
# Matching

What file patterns and search patterns match is decided by libraries. The engine is given them.
-/
namespace BatchShell

structure Matching where
  glob : Wildcard.Glob
  /-- Does a text occur in a line? -/
  holdsText : (ignoreCase : Bool) → (text line : String) → Bool
  /-- Does a regular expression occur in a line? `none` for a text that is no expression. -/
  holdsExpression? : (ignoreCase : Bool) → (expression : String) → Option (String → Bool)

end BatchShell
