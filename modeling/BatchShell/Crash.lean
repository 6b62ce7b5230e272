import BatchShell.Except

/-!
# Breaking off

Some steps cannot be carried out for certain operands: a number leaves its 64 bits, a text is cut inside
a character. The interpreter does not go on from there. It gives no result, no complaint and no output.
-/
namespace BatchShell

/-- The step at which the interpreter breaks off. -/
inductive Crash where
  /-- The result of an operation does not fit into 64 bits. -/
  | overflow
  /-- A text is cut inside a character. -/
  | splitCharacter
  /-- A list has more numbers than a memory can hold. -/
  | listTooLong
  deriving DecidableEq

end BatchShell
