/-!
The power of natural numbers and of integers.

An algebraic library brings a second power, equal to the first by unfolding. The definitions keep
to the first one, so that a statement means the same wherever the second is in scope.
-/

attribute [instance (high), default_instance high + 1] instPowNat
