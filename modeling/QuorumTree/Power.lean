/-!
Powers of whole numbers. A theory of algebra brings powers of its own to the natural numbers and the
integers; here those of the core library come first, so that a power is the same term with and
without such a theory in scope.
-/

namespace QuorumTree

-- A power of a numeral is settled by the default instances, so these come first there too, and that
-- of the natural numbers before that of the integers.

@[default_instance 10002]
instance (priority := high) natPower : Pow Nat Nat :=
  instPowNat

@[default_instance 10001]
instance (priority := high) intPower : Pow Int Nat :=
  instPowNat

end QuorumTree
