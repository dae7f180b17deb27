import Hetnet.Error

/-!
# Buffers sized in advance

A buffer is requested at its full size before it is filled. Sizes are limited by the
address space: no buffer is larger than the largest signed 64-bit number of bytes, and a
request beyond that crashes whoever made it.
-/

namespace Hetnet

/-- The size in bytes that no buffer exceeds. -/
def addressableBytes : Nat := Nat.pow 2 63 - 1

/-- Requests a buffer of `count` entries of `bytes` bytes each. -/
def reserve (count bytes : Nat) : Except Failure Unit :=
  if count * bytes ≤ addressableBytes then .ok () else .error (.crash "capacity overflow")

end Hetnet
