import Mathlib

/-!
# Texts

The two kinds of characters that texts are lists of, in the form the other modules
compare them.
-/

namespace AgentWorkflow.Lib

instance lawfulBEq_chars : LawfulBEq (List Char) := inferInstance
instance lawfulBEq_units : LawfulBEq (List UInt16) := inferInstance

end AgentWorkflow.Lib
